import Mathlib.Data.List.Induction
import Mathlib.Data.List.Nodup
import Wiring.Definition

/-!
# What is bound to a definition

Binding a member again changes what it is bound to and not where it stands; extra code is added every
time. After any writes on a new definition each member so stands there once, in the place of its first
write and with the value of its last one, and each extra code stands where it was added.
-/

namespace Wiring

namespace Binding

/-- What a definition is told to bind. -/
inductive Write where
  | bind (name : String) (value : Argument)
  | extra (code : Argument)

/-- What stands at one place among the bindings, whatever the member there is bound to. -/
inductive Place where
  | member (name : String)
  | extra (code : Argument)

namespace Place

def sameMember : Place → Place → Bool
  | .member name, .member other => name = other
  | _, _ => false

def name? : Place → Option String
  | .member name => some name
  | .extra _ => none

def code? : Place → Option Argument
  | .member _ => none
  | .extra code => some code

end Place

def place : Binding → Place
  | .member name _ => .member name
  | .extra code => .extra code

/-- The names of the members that are bound. -/
def names (bound : List Binding) : List String := (bound.map place).filterMap Place.name?

/-- The codes that are added. -/
def codes (bound : List Binding) : List Argument := (bound.map place).filterMap Place.code?

namespace Write

def on (definition : Definition) : Write → Definition
  | .bind name value => definition.bind name value
  | .extra code => definition.extra code

/-- The place that the write asks for. -/
def place : Write → Place
  | .bind name value => if name = extraName then .extra value else .member name
  | .extra code => .extra code

/-- What the write gives to the member of that name. -/
def value? (name : String) : Write → Option Argument
  | .bind other value => if other = name ∧ name ≠ extraName then some value else none
  | .extra _ => none

def latest? (name : String) (writes : List Write) : Option Argument :=
  (writes.filterMap (value? name)).getLast?

/-- The same writes, but for values of members that are bound again later. -/
inductive Overwritten : List Write → List Write → Prop
  | nil : Overwritten [] []
  | cons (write : Write) {writes others : List Write} (hrest : Overwritten writes others) :
      Overwritten (write :: writes) (write :: others)
  | bind {name : String} (value value' : Argument) {writes others : List Write}
      (hagain : ∃ write ∈ writes, write.place = .member name) (hrest : Overwritten writes others) :
      Overwritten (.bind name value :: writes) (.bind name value' :: others)

end Write

/-! ### One more binding -/

section Put

variable {name : String} {value : Argument} {bound : List Binding}

@[simp]
theorem names_cons_member (rest : List Binding) :
    names (.member name value :: rest) = name :: names rest := rfl

@[simp]
theorem names_cons_extra (code : Argument) (rest : List Binding) :
    names (.extra code :: rest) = names rest := rfl

theorem mem_names_iff : name ∈ names bound ↔ ∃ value, .member name value ∈ bound := by
  rw [names, List.mem_filterMap]
  constructor
  · rintro ⟨_, hplace, hname⟩
    obtain ⟨binding, hmem, rfl⟩ := List.mem_map.mp hplace
    cases binding with
    | member other held =>
        obtain rfl : other = name := Option.some.inj hname
        exact ⟨held, hmem⟩
    | extra code => cases hname
  · rintro ⟨value, hmem⟩
    exact ⟨.member name, List.mem_map.mpr ⟨_, hmem, rfl⟩, rfl⟩

theorem put_cons_member (other : String) (held : Argument) (rest : List Binding) :
    put name value (.member other held :: rest) =
      if other = name then .member name value :: rest
      else .member other held :: put name value rest := by
  simp only [put, isMember, decide_eq_true_eq]

theorem put_cons_extra (code : Argument) (rest : List Binding) :
    put name value (.extra code :: rest) = .extra code :: put name value rest := rfl

/-- A new member comes last; one that is there stays where it is. -/
theorem place_put (name : String) (value : Argument) (bound : List Binding) :
    (put name value bound).map place =
      bound.map place ++ if name ∈ names bound then [] else [.member name] := by
  induction bound with
  | nil => rfl
  | cons binding rest ih =>
      cases binding with
      | member other held =>
          rw [put_cons_member]
          by_cases hsame : other = name
          · subst hsame
            simp [place]
          · have hdiffers : name ≠ other := fun h => hsame h.symm
            simp only [if_neg hsame, List.map_cons, ih, names_cons_member, List.mem_cons, hdiffers,
              false_or, List.cons_append]
      | extra code =>
          rw [put_cons_extra, List.map_cons, ih, names_cons_extra]
          rfl

theorem mem_put_iff {other : String} {held : Argument} (hdistinct : (names bound).Nodup) :
    .member other held ∈ put name value bound ↔
      if other = name then held = value else .member other held ∈ bound := by
  induction bound with
  | nil =>
      by_cases hname : other = name <;> simp [put, hname]
  | cons binding rest ih =>
      cases binding with
      | member first kept =>
          rw [names_cons_member, List.nodup_cons] at hdistinct
          rw [put_cons_member]
          by_cases hfirst : first = name
          · subst hfirst
            rw [if_pos rfl, List.mem_cons, member.injEq]
            by_cases hname : other = first
            · subst hname
              rw [if_pos rfl]
              -- The name does not stand in the rest a second time.
              have habsent : .member other held ∉ rest := fun hmem =>
                hdistinct.1 (mem_names_iff.mpr ⟨held, hmem⟩)
              simp [habsent]
            · simp [hname]
          · rw [if_neg hfirst, List.mem_cons, ih hdistinct.2]
            by_cases hname : other = name
            · subst hname
              have hdiffers : other ≠ first := fun h => hfirst h.symm
              simp [hdiffers]
            · simp [hname]
      | extra code =>
          rw [put_cons_extra, List.mem_cons, ih hdistinct]
          by_cases hname : other = name <;> simp [hname]

end Put

/-! ### Places -/

namespace Place

variable {name : String} {places : List Place}

/-- Extra code takes a place of its own each time, a member only where it has none yet. -/
def firsts (places : List Place) : List Place := places.eraseDupsBy sameMember

theorem loop_append_singleton (kept : List Place) (places : List Place) (place : Place) :
    List.eraseDupsBy.loop sameMember (places ++ [place]) kept =
      List.eraseDupsBy.loop sameMember places kept ++
        if (List.eraseDupsBy.loop sameMember places kept).any (sameMember place) then []
        else [place] := by
  induction places generalizing kept with
  | nil =>
      simp only [List.nil_append, List.eraseDupsBy.loop, List.any_reverse]
      split <;> simp_all
  | cons first rest ih =>
      rw [List.cons_append, List.eraseDupsBy.loop, List.eraseDupsBy.loop]
      split
      · exact ih kept
      · exact ih (first :: kept)

theorem firsts_append_singleton (places : List Place) (place : Place) :
    firsts (places ++ [place]) =
      firsts places ++ if (firsts places).any (sameMember place) then [] else [place] :=
  loop_append_singleton [] places place

theorem any_sameMember_extra (code : Argument) (places : List Place) :
    places.any (sameMember (.extra code)) = false :=
  List.any_eq_false.mpr fun _ _ h => Bool.noConfusion h

theorem any_sameMember_member :
    places.any (sameMember (.member name)) = true ↔ name ∈ places.filterMap name? := by
  induction places with
  | nil => simp
  | cons place rest ih => cases place <;> simp_all [sameMember, name?]

theorem names_firsts_nodup (places : List Place) : ((firsts places).filterMap name?).Nodup := by
  induction places using List.reverseRecOn with
  | nil => exact List.nodup_nil
  | append_singleton places place ih =>
      rw [firsts_append_singleton, List.filterMap_append]
      split
      · rwa [List.filterMap_nil, List.append_nil]
      · next hnew =>
          cases place with
          | member name =>
              rw [any_sameMember_member] at hnew
              exact List.nodup_append.mpr ⟨ih, List.nodup_singleton name, fun other hother last hlast => by
                rintro rfl
                exact hnew (List.mem_singleton.mp hlast ▸ hother)⟩
          | extra code => rwa [List.filterMap_cons_none rfl, List.filterMap_nil, List.append_nil]

theorem codes_firsts (places : List Place) :
    (firsts places).filterMap code? = places.filterMap code? := by
  induction places using List.reverseRecOn with
  | nil => rfl
  | append_singleton places place ih =>
      rw [firsts_append_singleton, List.filterMap_append, List.filterMap_append, ih]
      cases place with
      | member name => split <;> rfl
      | extra code => rw [any_sameMember_extra]; rfl

end Place

/-! ### What a sequence of writes comes to -/

namespace Write

variable {name : String} {writes others : List Write}

theorem latest?_cons (name : String) (write : Write) (writes : List Write) :
    latest? name (write :: writes) = (latest? name writes).or (write.value? name) := by
  unfold latest?
  cases hvalue : write.value? name with
  | none => rw [List.filterMap_cons_none hvalue, Option.or_none]
  | some value =>
      rw [List.filterMap_cons_some hvalue, List.getLast?_cons]
      cases (writes.filterMap (value? name)).getLast? <;> rfl

theorem latest?_append_singleton (name : String) (writes : List Write) (write : Write) :
    latest? name (writes ++ [write]) = (write.value? name).or (latest? name writes) := by
  unfold latest?
  rw [List.filterMap_append, List.getLast?_append]
  cases hvalue : write.value? name with
  | none => rw [List.filterMap_cons_none hvalue]; rfl
  | some value => rw [List.filterMap_cons_some hvalue]; rfl

theorem place_bind_of_ne (hname : name ≠ extraName) (value : Argument) :
    (bind name value).place = .member name :=
  if_neg hname

theorem place_bind_extraName (value : Argument) :
    (bind extraName value).place = .extra value := by
  rw [place, if_pos rfl]

theorem value?_bind_self (hname : name ≠ extraName) (value : Argument) :
    (bind name value).value? name = some value :=
  if_pos ⟨rfl, hname⟩

theorem value?_bind_of_ne {other : String} (hother : other ≠ name) (value : Argument) :
    (bind other value).value? name = none :=
  if_neg fun h => hother h.1

theorem value?_bind_extraName (value : Argument) : (bind extraName value).value? name = none :=
  if_neg fun h => h.2 h.1.symm

theorem value?_isSome_iff {write : Write} :
    (write.value? name).isSome ↔ write.place = .member name := by
  cases write with
  | bind other value =>
      by_cases hextra : other = extraName
      · subst hextra
        simp [value?_bind_extraName, place_bind_extraName]
      · rw [place_bind_of_ne hextra, Place.member.injEq]
        by_cases hname : other = name
        · subst hname
          simp [value?_bind_self hextra]
        · simp [value?_bind_of_ne hname, hname]
  | extra code => simp [value?, place]

theorem latest?_isSome_iff :
    (latest? name writes).isSome ↔ ∃ write ∈ writes, write.place = .member name := by
  induction writes with
  | nil => simp [latest?]
  | cons write rest ih =>
      rw [latest?_cons, Option.isSome_or, Bool.or_eq_true, ih, value?_isSome_iff]
      simp [or_comm]

/-- No member has the name under which extra code is bound. -/
theorem ne_extraName {write : Write} (hplace : write.place = .member name) : name ≠ extraName := by
  rintro rfl
  obtain ⟨value, hvalue⟩ := Option.isSome_iff_exists.mp (value?_isSome_iff.mpr hplace)
  cases write with
  | bind other held =>
      rw [value?, if_neg fun h => h.2 rfl] at hvalue
      cases hvalue
  | extra code => cases hvalue

theorem Overwritten.places_eq (hoverwritten : Overwritten writes others) :
    writes.map place = others.map place := by
  induction hoverwritten with
  | nil => rfl
  | cons write _ ih => rw [List.map_cons, List.map_cons, ih]
  | bind value value' hagain _ ih =>
      obtain ⟨write, -, hplace⟩ := hagain
      have hname := ne_extraName hplace
      rw [List.map_cons, List.map_cons, ih, place_bind_of_ne hname, place_bind_of_ne hname]

/-- A value that is overwritten is no member's latest. -/
theorem Overwritten.latest?_eq (hoverwritten : Overwritten writes others) (name : String) :
    latest? name writes = latest? name others := by
  induction hoverwritten with
  | nil => rfl
  | cons write _ ih => rw [latest?_cons, latest?_cons, ih]
  | @bind other value value' writes others hagain _ ih =>
      rw [latest?_cons, latest?_cons, ← ih]
      by_cases hname : other = name
      · subst hname
        obtain ⟨held, hheld⟩ := Option.isSome_iff_exists.mp (latest?_isSome_iff.mpr hagain)
        rw [hheld, Option.some_or, Option.some_or]
      · rw [value?_bind_of_ne hname, value?_bind_of_ne hname]

/-! ### Each write on the definition -/

theorem on_eq (definition : Definition) (write : Write) :
    write.on definition = { definition with bindings := (write.on definition).bindings } := by
  cases write with
  | bind name value =>
      rw [on, Definition.bind]
      split <;> rfl
  | extra code => rfl

/-- Nothing but the bindings changes. -/
theorem foldl_on_eq (definition : Definition) (writes : List Write) :
    writes.foldl on definition =
      { definition with bindings := (writes.foldl on definition).bindings } := by
  induction writes generalizing definition with
  | nil => rfl
  | cons write rest ih => rw [List.foldl_cons, ih, on_eq]

theorem bindings_on_of_extra {write : Write} {code : Argument} (hplace : write.place = .extra code)
    (definition : Definition) :
    (write.on definition).bindings = definition.bindings ++ [.extra code] := by
  cases write with
  | bind name value =>
      by_cases hname : name = extraName
      · subst hname
        obtain rfl : value = code := by simpa [place_bind_extraName] using hplace
        rfl
      · rw [place_bind_of_ne hname] at hplace
        cases hplace
  | extra added =>
      obtain rfl : added = code := Place.extra.inj hplace
      rfl

theorem bindings_on_of_member {write : Write} (hplace : write.place = .member name) :
    ∃ value, write.value? name = some value ∧ ∀ definition : Definition,
      (write.on definition).bindings = put name value definition.bindings := by
  have hname := ne_extraName hplace
  cases write with
  | bind other value =>
      by_cases hother : other = extraName
      · subst hother
        rw [place_bind_extraName] at hplace
        cases hplace
      · obtain rfl : other = name := by simpa [place_bind_of_ne hother] using hplace
        refine ⟨value, value?_bind_self hname value, fun definition => ?_⟩
        rw [on, Definition.bind, if_neg hname]
  | extra code => cases hplace

end Write

/-- What the writes come to: what stands where, and what each member is bound to. -/
structure Settled (writes : List Write) (bound : List Binding) : Prop where
  places : bound.map place = Place.firsts (writes.map Write.place)
  values : ∀ name value, .member name value ∈ bound ↔ Write.latest? name writes = some value

namespace Settled

variable {writes : List Write} {bound : List Binding}

theorem names_nodup (settled : Settled writes bound) : (names bound).Nodup := by
  rw [names, settled.places]
  exact Place.names_firsts_nodup _

theorem codes_eq (settled : Settled writes bound) :
    codes bound = (writes.map Write.place).filterMap Place.code? := by
  rw [codes, settled.places, Place.codes_firsts]

theorem nil : Settled [] [] where
  places := rfl
  values name value := by simp [Write.latest?]

theorem on {definition : Definition} (settled : Settled writes definition.bindings) (write : Write) :
    Settled (writes ++ [write]) (write.on definition).bindings := by
  cases hplace : write.place with
  | member name =>
      obtain ⟨value, hvalue, hput⟩ := Write.bindings_on_of_member hplace
      rw [hput]
      constructor
      · rw [place_put, settled.places, List.map_append, List.map_singleton, hplace,
          Place.firsts_append_singleton]
        congr 1
        refine if_congr ?_ rfl rfl
        rw [Place.any_sameMember_member, ← settled.places, names]
      · intro other held
        rw [mem_put_iff settled.names_nodup, Write.latest?_append_singleton]
        by_cases hother : other = name
        · subst hother
          simp [hvalue, eq_comm]
        · have habsent : write.value? other = none := by
            rw [← Option.not_isSome_iff_eq_none, Write.value?_isSome_iff, hplace]
            exact fun h => hother (Place.member.inj h).symm
          rw [if_neg hother, habsent, Option.none_or, settled.values]
  | extra code =>
      rw [Write.bindings_on_of_extra hplace]
      constructor
      · rw [List.map_append, List.map_append, settled.places, List.map_singleton, List.map_singleton,
          hplace, Place.firsts_append_singleton, Place.any_sameMember_extra]
        rfl
      · intro other held
        have habsent : write.value? other = none := by
          rw [← Option.not_isSome_iff_eq_none, Write.value?_isSome_iff, hplace]
          exact fun h => Place.noConfusion h
        rw [Write.latest?_append_singleton, habsent, Option.none_or, ← settled.values]
        simp

/-- The writes leave no choice. -/
theorem unique {other : List Binding} (settled : Settled writes bound)
    (settled' : Settled writes other) : bound = other := by
  have hplaces : bound.map place = other.map place := settled.places.trans settled'.places.symm
  refine List.ext_getElem (by simpa using congrArg List.length hplaces) fun i hi hi' => ?_
  have hplace : bound[i].place = other[i].place := by
    simpa [hi, hi'] using congrArg (·[i]?) hplaces
  have hmem := List.getElem_mem hi
  have hmem' := List.getElem_mem hi'
  generalize bound[i] = binding at *
  generalize other[i] = binding' at *
  cases binding with
  | member name value =>
      cases binding' with
      | member name' value' =>
          obtain rfl : name = name' := Place.member.inj hplace
          have hlatest := (settled.values name value).mp hmem
          rw [(settled'.values name value').mp hmem'] at hlatest
          rw [Option.some.inj hlatest]
      | extra code => cases hplace
  | extra code =>
      cases binding' with
      | member name value => cases hplace
      | extra code' => rw [Place.extra.inj hplace]

theorem overwritten {others : List Write} (settled : Settled others bound)
    (hoverwritten : Write.Overwritten writes others) : Settled writes bound where
  places := by rw [settled.places, hoverwritten.places_eq]
  values name value := by rw [settled.values, hoverwritten.latest?_eq]

end Settled

theorem settled_foldl (entity : Entity) (writes : List Write) :
    Settled writes (writes.foldl Write.on (.ofEntity entity)).bindings := by
  induction writes using List.reverseRecOn with
  | nil => exact .nil
  | append_singleton writes write ih =>
      rw [List.foldl_append]
      exact ih.on write

/-- **The last write decides the value, the first one the place.** After any writes on a new definition
the bindings stand in the order in which each member was first bound and each extra code was added.
No member stands there twice, each member that was written is bound to what its last write gave, and
the extra codes are those that were added, whether as such or under the name of extra code, once for
each write. Writes that differ only in values that are overwritten later give the same definition. -/
theorem last_write_first_place (entity : Entity) (writes : List Write) :
    let definition := writes.foldl Write.on (.ofEntity entity)
    definition.bindings.map place = (writes.map Write.place).eraseDupsBy Place.sameMember ∧
      (names definition.bindings).Nodup ∧
      (∀ name value, .member name value ∈ definition.bindings ↔
        Write.latest? name writes = some value) ∧
      codes definition.bindings = (writes.map Write.place).filterMap Place.code? ∧
      ∀ others, Write.Overwritten writes others →
        others.foldl Write.on (.ofEntity entity) = definition := by
  intro definition
  have settled := settled_foldl entity writes
  refine ⟨settled.places, settled.names_nodup, settled.values, settled.codes_eq, ?_⟩
  intro others hoverwritten
  have hbindings : (others.foldl Write.on (.ofEntity entity)).bindings = definition.bindings :=
    ((settled_foldl entity others).overwritten hoverwritten).unique settled
  rw [Write.foldl_on_eq, hbindings]
  exact (Write.foldl_on_eq (.ofEntity entity) writes).symm

/-- Two members and two codes, of which one is bound under the name of extra code. The first write
gives `a` some value, and a later one another. -/
def rebinding (value : Int64) : List Write :=
  [.bind "a" (.value (.int value)), .bind "b" (.value (.int 2)),
    .bind extraName (.value (.int 3)), .bind "a" (.value (.int 4)), .extra (.value (.int 5))]

theorem last_write_first_place_rebinding :
    Write.Overwritten (rebinding 1) (rebinding 6) ∧
      (rebinding 6).foldl Write.on (.ofEntity (.construct "C")) =
        (rebinding 1).foldl Write.on (.ofEntity (.construct "C")) ∧
      ((rebinding 1).foldl Write.on (.ofEntity (.construct "C"))).bindings =
        [.member "a" (.value (.int 4)), .member "b" (.value (.int 2)),
          .extra (.value (.int 3)), .extra (.value (.int 5))] := by
  have hoverwritten : Write.Overwritten (rebinding 1) (rebinding 6) :=
    .bind _ _ ⟨.bind "a" (.value (.int 4)), by simp, rfl⟩
      (.cons _ (.cons _ (.cons _ (.cons _ .nil))))
  obtain ⟨-, -, -, -, hequal⟩ := last_write_first_place (.construct "C") (rebinding 1)
  exact ⟨hoverwritten, hequal _ hoverwritten, rfl⟩

end Binding
end Wiring
