import Mathlib.Order.Bounds.Defs
import Wiring.Proofs.WellFormed

/-!
# Names for methods

The method of a service is named by the letters and digits of its id. Where an id before it has that
name already, numbers are tried from two on until one makes a name that is free. A number that is
taken is taken by an id before it, so that the search is over before it has tried as many numbers as
there are ids.
-/

namespace Wiring

/-- The name of an id's method where nothing else has it. -/
def plainName (id : String) : String := "get_" ++ sanitized id

/-! ### Numbered names -/

section Numbered

variable {used : List String} {base : String}

theorem suffixed_injective (base : String) : Function.Injective (suffixed base) := by
  intro n m h
  have hdigits : Nat.toDigits 10 n = Nat.toDigits 10 m := by
    simpa [suffixed, Nat.toList_repr] using congrArg String.toList h
  simpa using congrArg (Nat.ofDigitChars 10 · 0) hdigits

theorem suffixed_ne (base : String) (n : Nat) : suffixed base n ≠ base := by
  intro h
  have hlengths := congrArg String.length h
  have hline : "_".length = 1 := rfl
  simp only [suffixed, String.length_append] at hlengths
  omega

/-- Numbers that are taken make names that differ, and the name without a number is one more. -/
theorem lt_add_length_of_taken {start n : Nat} (hbase : base ∈ used) (hstart : start ≤ n)
    (htaken : ∀ m, start ≤ m → m < n → suffixed base m ∈ used) : n < start + used.length := by
  let numbered := (List.range' start (n - start)).map (suffixed base)
  have hdistinct : (base :: numbered).Nodup := by
    refine List.nodup_cons.mpr ⟨fun hmem => ?_, List.Nodup.map (suffixed_injective base) List.nodup_range'⟩
    obtain ⟨m, -, hm⟩ := List.mem_map.mp hmem
    exact suffixed_ne base m hm
  have hused : base :: numbered ⊆ used := by
    refine List.cons_subset.mpr ⟨hbase, fun name hname => ?_⟩
    obtain ⟨m, hm, rfl⟩ := List.mem_map.mp hname
    obtain ⟨hle, hlt⟩ := List.mem_range'_1.mp hm
    exact htaken m hle (by omega)
  have hlength : (base :: numbered).length = n - start + 1 := by simp [numbered]
  have hle := (hdistinct.subperm hused).length_le
  omega

/-- The search passes over numbers that are taken, and before its last try it stops at none that is. -/
theorem freeName_eq (used : List String) (base : String) (tries start : Nat) :
    ∃ n, start ≤ n ∧ n ≤ start + tries ∧ freeName used base tries start = suffixed base n ∧
      (∀ m, start ≤ m → m < n → suffixed base m ∈ used) ∧
      (n < start + tries → suffixed base n ∉ used) := by
  induction tries generalizing start with
  | zero => exact ⟨start, by omega, by omega, rfl, by omega, by omega⟩
  | succ tries ih =>
      rw [freeName]
      split
      · next htaken =>
          obtain ⟨n, hstart, hlast, heq, hpassed, hstops⟩ := ih (start + 1)
          refine ⟨n, by omega, by omega, heq, fun m hle hlt => ?_, fun hlt => hstops (by omega)⟩
          rcases Nat.eq_or_lt_of_le hle with rfl | hafter
          · exact htaken
          · exact hpassed m hafter hlt
      · next hfree => exact ⟨start, by omega, by omega, rfl, by omega, fun _ => hfree⟩

end Numbered

/-! ### One name -/

section Name

variable {used : List String} {id : String}

theorem methodName_of_not_mem (hfree : plainName id ∉ used) : methodName used id = plainName id :=
  if_neg hfree

/-- The number is the least that is free, and it is not large. -/
theorem methodName_of_mem (htaken : plainName id ∈ used) :
    ∃ n ≤ used.length + 1, IsLeast {n | 2 ≤ n ∧ suffixed (plainName id) n ∉ used} n ∧
      methodName used id = suffixed (plainName id) n := by
  obtain ⟨n, hstart, -, heq, hpassed, hstops⟩ :=
    freeName_eq used (plainName id) used.length 2
  have hlast : n < 2 + used.length := lt_add_length_of_taken htaken hstart hpassed
  refine ⟨n, by omega, ⟨⟨hstart, hstops hlast⟩, fun m ⟨hle, hfree⟩ => ?_⟩, ?_⟩
  · by_contra hlt
    exact hfree (hpassed m hle (by omega))
  · exact (if_pos htaken).trans heq

theorem methodName_not_mem (used : List String) (id : String) : methodName used id ∉ used := by
  by_cases htaken : plainName id ∈ used
  · obtain ⟨n, -, hleast, heq⟩ := methodName_of_mem htaken
    rw [heq]
    exact hleast.1.2
  · rwa [methodName_of_not_mem htaken]

end Name

/-! ### What names are written with -/

/-- Small letters and digits of ASCII, and underscores. -/
def IsWord (text : String) : Prop := ∀ c ∈ text.toList, c.isLower ∨ c.isDigit ∨ c = '_'

theorem IsWord.append {text other : String} (hword : IsWord text) (hword' : IsWord other) :
    IsWord (text ++ other) := by
  intro c hc
  rw [String.toList_append, List.mem_append] at hc
  exact hc.elim (hword c) (hword' c)

/-- Letters and digits of ASCII become small letters and digits. -/
theorem toLower_of_isAlphanum {c : Char} (h : c.isAlphanum) :
    c.toLower.isLower ∨ c.toLower.isDigit := by
  by_cases hcapital : c.val ≥ 'A'.val ∧ c.val ≤ 'Z'.val
  · have hsmall : c.toLower.val = c.val + 32 := congrArg Char.val (dif_pos hcapital)
    obtain ⟨hfirst, hlast⟩ : 65 ≤ c.val.toNat ∧ c.val.toNat ≤ 90 := by
      simpa [UInt32.le_iff_toNat_le] using hcapital
    have hcode : c.toLower.val.toNat = c.val.toNat + 32 := by
      rw [hsmall, UInt32.toNat_add]
      exact Nat.mod_eq_of_lt (by change c.val.toNat + 32 < 4294967296; omega)
    refine .inl (Bool.and_eq_true_iff.mpr ⟨decide_eq_true ?_, decide_eq_true ?_⟩)
    · rw [ge_iff_le, UInt32.le_iff_toNat_le, hcode]
      exact Nat.add_le_add_right hfirst 32
    · rw [UInt32.le_iff_toNat_le, hcode]
      exact Nat.add_le_add_right hlast 32
  · have hsame : c.toLower = c := dif_neg hcapital
    rw [hsame]
    refine (Bool.or_eq_true_iff.mp h).imp_left fun halpha => ?_
    exact (Bool.or_eq_true_iff.mp halpha).resolve_left fun hupper =>
      hcapital (of_decide_eq_true hupper)

theorem isWord_sanitized (id : String) : IsWord (sanitized id) := by
  intro c hc
  rw [sanitized, String.toList_map, List.mem_map] at hc
  obtain ⟨given, -, rfl⟩ := hc
  split
  · next halphanum =>
      rcases toLower_of_isAlphanum halphanum with hlower | hdigit
      · exact .inl hlower
      · exact .inr (.inl hdigit)
  · exact .inr (.inr rfl)

theorem isWord_suffix (n : Nat) : IsWord ("_" ++ toString n) := by
  intro c hc
  rw [String.toList_append, List.mem_append] at hc
  rcases hc with hline | hdigit
  · exact .inr (.inr (by simpa using hline))
  · rw [Nat.toString_eq_repr, Nat.toList_repr] at hdigit
    exact .inr (.inl (Nat.isDigit_of_mem_toDigits (by omega) (by omega) hdigit))

theorem methodName_eq_append (used : List String) (id : String) :
    ∃ word, methodName used id = "get_" ++ word ∧ IsWord word := by
  by_cases htaken : plainName id ∈ used
  · obtain ⟨n, -, -, heq⟩ := methodName_of_mem htaken
    refine ⟨sanitized id ++ ("_" ++ toString n), ?_, (isWord_sanitized id).append (isWord_suffix n)⟩
    rw [heq, suffixed, plainName, String.append_assoc, String.append_assoc]
  · exact ⟨sanitized id, methodName_of_not_mem htaken, isWord_sanitized id⟩

/-! ### All names -/

theorem methodNames_append_singleton (ids : List String) (id : String) :
    methodNames (ids ++ [id]) = methodNames ids ++ [methodName (methodNames ids) id] := by
  rw [methodNames, List.foldl_append]
  rfl

@[simp]
theorem length_methodNames (ids : List String) : (methodNames ids).length = ids.length := by
  induction ids using List.reverseRecOn with
  | nil => rfl
  | append_singleton ids id ih => simp [methodNames_append_singleton, ih]

theorem methodNames_nodup (ids : List String) : (methodNames ids).Nodup := by
  induction ids using List.reverseRecOn with
  | nil => exact List.nodup_nil
  | append_singleton ids id ih =>
      rw [methodNames_append_singleton]
      exact List.nodup_append.mpr ⟨ih, List.nodup_singleton _, fun name hname other hother heq => by
        rw [List.mem_singleton.mp hother] at heq
        exact methodName_not_mem _ id (heq ▸ hname)⟩

/-- Each name was found among those of the ids before. -/
theorem getElem?_methodNames {ids : List String} {index : Nat} {id : String}
    (hid : ids[index]? = some id) :
    (methodNames ids)[index]? = some (methodName ((methodNames ids).take index) id) := by
  induction ids using List.reverseRecOn with
  | nil => cases hid
  | append_singleton ids last ih =>
      rw [methodNames_append_singleton]
      rcases Nat.lt_or_ge index ids.length with hlt | hge
      · rw [List.getElem?_append_left hlt] at hid
        have hlt' : index < (methodNames ids).length := by rwa [length_methodNames]
        rw [List.getElem?_append_left hlt', List.take_append_of_le_length hlt'.le, ih hid]
      · obtain ⟨hindex, -⟩ := List.getElem?_eq_some_iff.mp hid
        obtain rfl : index = ids.length := by
          rw [List.length_append, List.length_singleton] at hindex
          omega
        obtain rfl : last = id := by simpa using hid
        rw [← length_methodNames ids, List.getElem?_concat_length, List.take_left]

theorem isWord_methodNames {ids : List String} {name : String} (hname : name ∈ methodNames ids) :
    ∃ word, name = "get_" ++ word ∧ IsWord word := by
  obtain ⟨index, hindex⟩ := List.mem_iff_getElem?.mp hname
  obtain ⟨hlt, -⟩ := List.getElem?_eq_some_iff.mp hindex
  rw [length_methodNames] at hlt
  rw [getElem?_methodNames (List.getElem?_eq_getElem hlt)] at hindex
  obtain rfl := Option.some.inj hindex
  exact methodName_eq_append _ _

/-! ### The methods of a program -/

namespace Registry

variable {registry : Registry} {config : Config} {program : Program}

namespace Compiled

variable (compiled : registry.Compiled config program)

include compiled

theorem methods_eq :
    program.routines.map (·.method) = methodNames (program.routines.map (·.id)) := by
  rw [compiled.ids_eq]
  refine List.ext_getElem? fun index => ?_
  rw [List.getElem?_map]
  cases hindex : (registry.plan config).ids[index]? with
  | none =>
      have hlength : (registry.plan config).ids.length ≤ index := List.getElem?_eq_none_iff.mp hindex
      rw [compiled.routines_eq, List.getElem?_map, hindex,
        List.getElem?_eq_none_iff.mpr ((length_methodNames _).trans_le hlength)]
      rfl
  | some id =>
      obtain ⟨definition, -, hroutine⟩ := compiled.routine_at hindex
      obtain ⟨position, hlink⟩ := Plan.link_isOk_of_mem (List.mem_of_getElem? hindex)
      obtain ⟨-, hposition⟩ := Plan.position_of_link hlink
      obtain rfl : index = position := by
        obtain ⟨hlt, -⟩ := List.getElem?_eq_some_iff.mp hindex
        exact (List.getElem?_inj hlt (Plan.ids_nodup registry config.maxDepth)).mp
          (hindex.trans hposition.symm)
      have hmethod : (definition.linked (registry.plan config) id).method =
          ((methodNames (registry.plan config).ids)[index]?).getD "" := by
        rw [Definition.linked, hlink]
        rfl
      rw [hroutine, Option.map_some, hmethod, getElem?_methodNames hindex, Option.getD_some]

theorem eq_of_method {id other method : String} (hid : program.methods.get? id = some method)
    (hother : program.methods.get? other = some method) : id = other := by
  obtain ⟨routine, hmem, rfl, hmethod, -⟩ := (compiled.get?_methods id method).mp hid
  obtain ⟨routine', hmem', rfl, hmethod', -⟩ := (compiled.get?_methods other method).mp hother
  have hdistinct : (program.routines.map (·.method)).Nodup := by
    rw [compiled.methods_eq]
    exact methodNames_nodup _
  exact congrArg Routine.id
    (List.inj_on_of_nodup_map hdistinct hmem hmem' (hmethod.trans hmethod'.symm))

end Compiled

end Registry

/-- **Methods are named apart.** Whatever the ids are, each of them gets one name, and no name is given
twice. A name is `get_` and a word of small letters, digits and underscores. It is the plain name of
its id, unless an id before has that name; then a number is added, the least from two on that makes a
name which no id before has. The search for it ends: the number is at most that of the ids up to this
one. So no two services of a compiled program have one method. -/
theorem methods_named_apart (ids : List String) :
    (methodNames ids).length = ids.length ∧
      (methodNames ids).Nodup ∧
      (∀ name ∈ methodNames ids, ∃ word, name = "get_" ++ word ∧ IsWord word) ∧
      (∀ index id, ids[index]? = some id →
        let taken := (methodNames ids).take index
        ∃ name, (methodNames ids)[index]? = some name ∧
          if plainName id ∈ taken then
            ∃ n ≤ index + 1, IsLeast {n | 2 ≤ n ∧ suffixed (plainName id) n ∉ taken} n ∧
              name = suffixed (plainName id) n
          else name = plainName id) ∧
      ∀ (registry : Registry) (config : Config) (program : Program),
        registry.compile config = .ok program → ∀ id other method,
          program.methods.get? id = some method → program.methods.get? other = some method →
            id = other := by
  refine ⟨length_methodNames ids, methodNames_nodup ids, fun name => isWord_methodNames, ?_, ?_⟩
  · intro index id hid taken
    refine ⟨_, getElem?_methodNames hid, ?_⟩
    split
    · next htaken =>
        obtain ⟨n, hle, hleast, heq⟩ := methodName_of_mem htaken
        have hlength : taken.length ≤ index := List.length_take_le _ _
        exact ⟨n, by omega, hleast, heq⟩
    · next hfree => exact methodName_of_not_mem hfree
  · intro registry config program hcompile id other method
    exact (Registry.compiled_of_compile hcompile).eq_of_method

/-- Two ids with the same plain name, and a third whose plain name is what the second is given. -/
def namesakes : Registry :=
  ["a_2", "a", "A"].foldl (fun registry id =>
    (Registration.set id (Definition.ofValue .null)).after registry {}) ∅

def namesakesProgram : Program := (namesakes.compile {}).toOption.getD default

theorem methods_named_apart_namesakes :
    methodNames ["A", "a", "a_2"] = ["get_a", "get_a_2", "get_a_2_2"] ∧
      (methodNames ["A", "a", "a_2"]).Nodup ∧
      (∃ n ≤ 3, IsLeast {n | 2 ≤ n ∧ suffixed "get_a_2" n ∉ ["get_a", "get_a_2"]} n) ∧
      namesakes.compile {} = .ok namesakesProgram ∧
      namesakesProgram.methods.entries =
        [("A", "get_a"), ("a", "get_a_2"), ("a_2", "get_a_2_2")] ∧
      ∀ id, namesakesProgram.methods.get? id = some "get_a_2" → id = "a" := by
  obtain ⟨-, hdistinct, -, hnamed, hprograms⟩ := methods_named_apart ["A", "a", "a_2"]
  have hfirst : methodName [] "A" = "get_a" := by decide +kernel
  have hsecond : methodName ["get_a"] "a" = "get_a_2" := by decide +kernel
  have hthird : methodName ["get_a", "get_a_2"] "a_2" = "get_a_2_2" := by decide +kernel
  have hnames : methodNames ["A", "a", "a_2"] = ["get_a", "get_a_2", "get_a_2_2"] := by
    simp only [methodNames, List.foldl_cons, List.foldl_nil, List.nil_append, List.cons_append,
      hfirst, hsecond, hthird]
  have hplain : plainName "a_2" = "get_a_2" := by decide +kernel
  have htaken : "get_a_2" ∈ ["get_a", "get_a_2", "get_a_2_2"].take 2 := by decide
  obtain ⟨name, -, hname⟩ := hnamed 2 "a_2" rfl
  simp only [hnames, hplain, if_pos htaken] at hname
  obtain ⟨n, hle, hleast, -⟩ := hname
  have hcompile : namesakes.compile {} = .ok namesakesProgram := rfl
  have compiled := Registry.compiled_of_compile hcompile
  have hids : namesakesProgram.routines.map (·.id) = ["A", "a", "a_2"] := by decide +kernel
  have hshown : namesakesProgram.routines.filter (·.visibility = .exposed) =
      namesakesProgram.routines := List.filter_eq_self.mpr (by decide +kernel)
  have hentries : namesakesProgram.methods.entries =
      [("A", "get_a"), ("a", "get_a_2"), ("a_2", "get_a_2_2")] := by
    rw [compiled.entries_methods, hshown, ← List.zip_map', compiled.methods_eq, hids, hnames]
    rfl
  have hmethod : namesakesProgram.methods.get? "a" = some "get_a_2" := by
    rw [Dict.get?, hentries]
    decide
  exact ⟨hnames, hdistinct, ⟨n, hle, hleast⟩, hcompile, hentries, fun id hid =>
    hprograms namesakes {} namesakesProgram hcompile id "a" "get_a_2" hid hmethod⟩

end Wiring
