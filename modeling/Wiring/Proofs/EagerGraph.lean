import Mathlib.Data.List.Chain
import Mathlib.Data.List.Perm.Subperm
import Mathlib.Logic.Relation
import Wiring.Proofs.Demands

/-!
# The eager graph

Finishing a definition first finishes what it eagerly demands, so that compiling walks a graph depth
first. What is finished is closed under the edges of that graph and reaches no cycle; what stops the
walk is a demand that fails its check, or an edge back into the chain.
-/

namespace Wiring

theorem map_eq_ok {α β : Type} {result : Except Error α} {f : α → β} {b : β}
    (hmap : result.map f = .ok b) : ∃ a, result = .ok a ∧ f a = b := by
  cases result with
  | error error => simp [Except.map] at hmap
  | ok a => exact ⟨a, rfl, by simpa [Except.map] using hmap⟩

theorem map_eq_error {α β : Type} {result : Except Error α} {f : α → β} {error : Error}
    (hmap : result.map f = .error error) : result = .error error := by
  cases result with
  | error other => simpa [Except.map] using hmap
  | ok a => simp [Except.map] at hmap

namespace Plan

variable (plan : Plan)

/-- To meet the demand, the compiler finishes `next`. -/
def Eager (next : String) : Demand → Prop
  | .reference name => plan.target name = .ok next ∧ plan.registry.isLazy next = false
  | .callee name => plan.target name = .ok next
  | .parameter _ => False
  | .construct .. => False

/-- An edge of the eager graph. -/
def Edge (id next : String) : Prop :=
  ∃ definition : Definition, plan.registry.definition? id = some definition ∧
    ∃ demand ∈ definition.demands plan.candidates, plan.Eager next demand

variable {plan}

theorem select_eq_ok {name : String} {link : Link} (hselect : plan.select name = .ok link) :
    plan.target name = .ok link.id ∧ plan.ids[link.position]? = some link.id := by
  unfold select at hselect
  cases htarget : plan.target name with
  | error error => simp [htarget, Except.bind] at hselect
  | ok target =>
      simp only [htarget, Except.bind] at hselect
      obtain ⟨rfl, hposition⟩ := position_of_link hselect
      exact ⟨rfl, hposition⟩

theorem contains_of_eager {registry : Registry} {maxDepth : Nat} {next : String} {demand : Demand}
    (heager : (ofRegistry registry maxDepth).Eager next demand) : registry.contains next := by
  cases demand with
  | reference name => exact contains_of_target registry maxDepth heager.1
  | callee name => exact contains_of_target registry maxDepth heager
  | parameter name => exact heager.elim
  | construct className positional => exact heager.elim

/-- A demand that passes its check finishes exactly what it is eager for. -/
theorem settle_eq_ok {id : String} {demand : Demand} {found : Option String}
    (hsettle : plan.settle id demand = .ok found) (next : String) :
    found = some next ↔ plan.Eager next demand := by
  cases demand with
  | reference name =>
      obtain ⟨link, hselect, rfl⟩ := map_eq_ok hsettle
      obtain ⟨htarget, -⟩ := select_eq_ok hselect
      simp only [Eager, htarget, Except.ok.injEq]
      by_cases hlazy : plan.registry.isLazy link.id = true
      · rw [if_pos hlazy]
        constructor
        · intro hnone
          simp at hnone
        · rintro ⟨rfl, hnot⟩
          simp [hlazy] at hnot
      · rw [if_neg hlazy, Option.some.injEq]
        constructor
        · rintro rfl
          exact ⟨rfl, by simpa using hlazy⟩
        · exact And.left
  | callee name =>
      obtain ⟨link, hselect, rfl⟩ := map_eq_ok hsettle
      obtain ⟨htarget, -⟩ := select_eq_ok hselect
      simp only [Eager, htarget, Except.ok.injEq, Option.some.injEq]
  | parameter name =>
      obtain ⟨value, -, rfl⟩ := map_eq_ok hsettle
      simp [Eager]
  | construct className positional =>
      obtain ⟨checked, -, rfl⟩ := map_eq_ok hsettle
      simp [Eager]

end Plan

/-- What a compilation is told when it fails in one place: no mark of any definition, and nothing of a
chain. -/
def Error.Plain : Error → Prop
  | .compilation .. => False
  | .circularReference .. => False
  | .resolutionDepthExceeded .. => False
  | _ => True

theorem Catalog.ensureInstantiable_error {catalog : Catalog} {id className : String}
    {positional : Nat} {error : Error}
    (hcheck : catalog.ensureInstantiable id className positional = .error error) :
    ∃ fault, error = .invalidEntity id fault := by
  unfold ensureInstantiable at hcheck
  dsimp only at hcheck
  split at hcheck
  · split at hcheck
    · exact ⟨_, by simpa [eq_comm] using hcheck⟩
    · simp at hcheck
  · split at hcheck
    · exact ⟨_, by simpa [eq_comm] using hcheck⟩
    · split at hcheck
      · simp at hcheck
      · split at hcheck
        · simp at hcheck
        · split at hcheck
          · exact ⟨_, by simpa [eq_comm] using hcheck⟩
          · exact ⟨_, by simpa [eq_comm] using hcheck⟩

namespace Plan

variable {plan : Plan}

theorem plain_of_select {name : String} {error : Error}
    (hselect : plan.select name = .error error) : error.Plain := by
  unfold select at hselect
  cases htarget : plan.target name with
  | error other =>
      obtain rfl : other = error := by simpa [htarget, Except.bind] using hselect
      unfold target at htarget
      dsimp only at htarget
      split at htarget
      · simp at htarget
      · split at htarget
        · obtain rfl : _ = other := by simpa using htarget
          trivial
        · simp at htarget
        · obtain rfl : _ = other := by simpa using htarget
          trivial
  | ok id =>
      have hlink : plan.link id = .error error := by simpa [htarget, Except.bind] using hselect
      unfold link at hlink
      split at hlink
      · simp at hlink
      · obtain rfl : _ = error := by simpa using hlink
        trivial

theorem plain_of_settle {id : String} {demand : Demand} {error : Error}
    (hsettle : plan.settle id demand = .error error) : error.Plain := by
  cases demand with
  | reference name => exact plain_of_select (map_eq_error hsettle)
  | callee name => exact plain_of_select (map_eq_error hsettle)
  | parameter name =>
      have hfound := map_eq_error hsettle
      unfold Registry.parameter at hfound
      split at hfound
      · simp at hfound
      · obtain rfl : _ = error := by simpa using hfound
        trivial
  | construct className positional =>
      obtain ⟨fault, rfl⟩ := Catalog.ensureInstantiable_error (map_eq_error hsettle)
      trivial

end Plan

/-! ### What a compiling step ends in -/

namespace Compiling

/-- From `finished` the step ends with a value and a table as told by `post`, or with an error as
told by `fault`. -/
def Ends {α : Type} (act : Compiling α) (finished : Dict Routine)
    (post : α → Dict Routine → Prop) (fault : Error → Prop) : Prop :=
  match act finished with
  | .ok (a, later) => post a later
  | .error error => fault error

section Ends

variable {α β : Type} {finished : Dict Routine} {post : α → Dict Routine → Prop}
  {fault : Error → Prop}

theorem Ends.pure {a : α} (h : post a finished) : Ends (pure a) finished post fault := h

theorem Ends.of_eq {act act' : Compiling α} (heq : act finished = act' finished)
    (hact : Ends act' finished post fault) : Ends act finished post fault := by
  unfold Ends at *
  rwa [heq]

theorem Ends.lift_error {error : Error} (h : fault error) :
    Ends (lift (.error error)) finished post fault := h

theorem Ends.modify {change : Dict Routine → Dict Routine} {post : PUnit → Dict Routine → Prop}
    (h : post () (change finished)) : Ends (modify change) finished post fault := h

theorem Ends.bind {act : Compiling α} {next : α → Compiling β} {post' : β → Dict Routine → Prop}
    (hact : Ends act finished post fault)
    (hnext : ∀ a later, post a later → Ends (next a) later post' fault) :
    Ends (act >>= next) finished post' fault := by
  unfold Ends at *
  change match (act finished).bind fun out => next out.1 out.2 with
    | .ok (b, later) => post' b later
    | .error error => fault error
  cases hrun : act finished with
  | error error => simpa [hrun, Except.bind] using hact
  | ok out => exact hnext out.1 out.2 (by simpa [hrun] using hact)

theorem Ends.imp {act : Compiling α} {post' : α → Dict Routine → Prop} {fault' : Error → Prop}
    (hact : Ends act finished post fault) (hpost : ∀ a later, post a later → post' a later)
    (hfault : ∀ error, fault error → fault' error) : Ends act finished post' fault' := by
  unfold Ends at *
  split at hact
  · exact hpost _ _ hact
  · exact hfault _ hact

theorem Ends.within {act : Compiling α} {id : String}
    (hact : Ends act finished post fun error => fault (error.within id)) :
    Ends (within id act) finished post fault := by
  unfold Ends Compiling.within at *
  cases hrun : act finished with
  | error error => simpa [hrun, Except.mapError] using hact
  | ok out => simpa [hrun, Except.mapError] using hact

end Ends

end Compiling

namespace Plan

/-! ### What is finished -/

/-- What is finished is what the plan makes of it, with everything that it demands finished too; no
cycle is in reach. -/
structure Settled (plan : Plan) (finished : Dict Routine) : Prop where
  linked : ∀ {id : String} {routine : Routine}, finished.get? id = some routine →
    ∃ definition : Definition, plan.registry.definition? id = some definition ∧
      routine = definition.linked plan id
  met : ∀ {id : String} {definition : Definition}, finished.contains id →
    plan.registry.definition? id = some definition →
      ∀ demand ∈ definition.demands plan.candidates, ∃ found, plan.settle id demand = .ok found ∧
        ∀ next, found = some next → finished.contains next
  grounded : ∀ {id : String}, finished.contains id → Acc (flip plan.Edge) id

/-- `later` is settled and has everything in `finished`, but nothing of the chain besides. -/
structure Advance (plan : Plan) (chain : List String) (finished later : Dict Routine) : Prop where
  settled : plan.Settled later
  kept : ∀ id, finished.contains id → later.contains id
  apart : ∀ id ∈ chain, later.contains id → finished.contains id

variable {plan : Plan}

theorem settled_empty : plan.Settled ∅ where
  linked hfound := by simp at hfound
  met hcontains := by simp [Dict.contains] at hcontains
  grounded hcontains := by simp [Dict.contains] at hcontains

theorem Advance.refl {chain : List String} {finished : Dict Routine}
    (settled : plan.Settled finished) : plan.Advance chain finished finished :=
  ⟨settled, fun _ h => h, fun _ _ h => h⟩

theorem Advance.trans {chain : List String} {finished later last : Dict Routine}
    (h : plan.Advance chain finished later) (h' : plan.Advance chain later last) :
    plan.Advance chain finished last :=
  ⟨h'.settled, fun id hid => h'.kept id (h.kept id hid),
    fun id hid hlast => h.apart id hid (h'.apart id hid hlast)⟩

/-- All demands of the definition are met, so it can be counted as finished. -/
theorem Settled.insert {finished : Dict Routine} (settled : plan.Settled finished) {id : String}
    {definition : Definition} (hfound : plan.registry.definition? id = some definition)
    (hmet : ∀ demand ∈ definition.demands plan.candidates,
      ∃ found, plan.settle id demand = .ok found ∧ ∀ next, found = some next → finished.contains next) :
    plan.Settled (finished.insert id (definition.linked plan id)) where
  linked {name routine} hroutine := by
    rw [Dict.get?_insert] at hroutine
    split at hroutine
    · next here =>
        subst here
        exact ⟨definition, hfound, by simpa using hroutine.symm⟩
    · exact settled.linked hroutine
  met {name other} hcontains hother demand hdemand := by
    have hin : ∀ next, finished.contains next →
        (finished.insert id (definition.linked plan id)).contains next := fun next hnext =>
      (Dict.contains_insert _ _ _ _).mpr (Or.inr hnext)
    rcases (Dict.contains_insert _ _ _ _).mp hcontains with rfl | hold
    · obtain rfl : definition = other := by simpa [hfound] using hother
      obtain ⟨found, hsettle, hnext⟩ := hmet demand hdemand
      exact ⟨found, hsettle, fun next h => hin next (hnext next h)⟩
    · obtain ⟨found, hsettle, hnext⟩ := settled.met hold hother demand hdemand
      exact ⟨found, hsettle, fun next h => hin next (hnext next h)⟩
  grounded {name} hcontains := by
    rcases (Dict.contains_insert _ _ _ _).mp hcontains with rfl | hold
    · refine Acc.intro _ fun next hedge => ?_
      obtain ⟨other, hother, demand, hdemand, heager⟩ := hedge
      obtain rfl : definition = other := by simpa [hfound] using hother
      obtain ⟨found, hsettle, hnext⟩ := hmet demand hdemand
      exact settled.grounded (hnext next ((settle_eq_ok hsettle next).mpr heager))
    · exact settled.grounded hold

theorem Settled.reach {finished : Dict Routine} (settled : plan.Settled finished) {id next : String}
    (hcontains : finished.contains id) (hreach : Relation.ReflTransGen plan.Edge id next) :
    finished.contains next := by
  induction hreach with
  | refl => exact hcontains
  | tail _ hedge ih =>
      obtain ⟨definition, hfound, demand, hdemand, heager⟩ := hedge
      obtain ⟨found, hsettle, hnext⟩ := settled.met ih hfound demand hdemand
      exact hnext _ ((settle_eq_ok hsettle _).mpr heager)

/-! ### What stops the walk -/

/-- `next` cannot even be entered after `chain`. -/
def Refused (plan : Plan) (chain : List String) (next : String) (error : Error) : Prop :=
  plan.registry.definition? next = none ∧ error = .notFound next ∨
    Chain.enter plan.maxDepth chain next = .error error

/-- The last definition of the chain has a demand that fails its check, or leads to a definition that
cannot be entered. -/
def Stuck (plan : Plan) (chain : List String) (error : Error) : Prop :=
  ∃ above id, chain = above ++ [id] ∧ ∃ definition : Definition,
    plan.registry.definition? id = some definition ∧
      ∃ demand ∈ definition.demands plan.candidates, ∃ source, error = .compilation id source ∧
        (plan.settle id demand = .error source ∨
          ∃ next, plan.settle id demand = .ok (some next) ∧ plan.Refused chain next source)

/-- Finishing `id` below `chain` fails: it is refused, or the walk gets stuck further down. -/
def Fault (plan : Plan) (chain : List String) (id : String) (error : Error) : Prop :=
  plan.Refused chain id error ∨
    ∃ longer, longer.Nodup ∧ longer.IsChain plan.Edge ∧ plan.Stuck longer error

theorem within_of_settle {id other : String} {demand : Demand} {error : Error}
    (hsettle : plan.settle other demand = .error error) :
    error.within id = .compilation id error := by
  have hplain := plain_of_settle hsettle
  cases error with
  | compilation => exact hplain.elim
  | _ => rfl

theorem within_of_refused {chain : List String} {id next : String} {error : Error}
    (hrefused : plan.Refused chain next error) : error.within id = .compilation id error := by
  rcases hrefused with ⟨-, rfl⟩ | henter
  · rfl
  · unfold Chain.enter at henter
    split at henter
    · obtain rfl : _ = error := by simpa using henter
      rfl
    · split at henter
      · obtain rfl : _ = error := by simpa using henter
        rfl
      · simp at henter

end Plan

namespace Chain

variable {chain : List String} {id : String}

theorem rootCause_of_enter {maxDepth : Nat} {error : Error}
    (henter : enter maxDepth chain id = .error error) : error.rootCause = error := by
  unfold enter at henter
  split at henter
  · obtain rfl := Except.error.inj henter
    rfl
  · split at henter
    · obtain rfl := Except.error.inj henter
      rfl
    · simp at henter

theorem nodup_concat (hnodup : chain.Nodup) (hfresh : id ∉ chain) : (chain ++ [id]).Nodup := by
  refine List.nodup_append.mpr ⟨hnodup, List.nodup_singleton id, ?_⟩
  rintro name hname other hother rfl
  exact hfresh (List.mem_singleton.mp hother ▸ hname)

theorem concat_subset {ids : List String} (hsubset : chain ⊆ ids) (hid : id ∈ ids) :
    chain ++ [id] ⊆ ids :=
  List.append_subset.mpr ⟨hsubset, List.cons_subset.mpr ⟨hid, List.nil_subset ids⟩⟩

/-- A chain that can be prolonged is shorter than the list of all ids. -/
theorem length_lt_of_fresh {ids : List String} (hnodup : chain.Nodup) (hsubset : chain ⊆ ids)
    (hfresh : id ∉ chain) (hid : id ∈ ids) : chain.length < ids.length := by
  have hlonger : (id :: chain).Nodup := List.nodup_cons.mpr ⟨hfresh, hnodup⟩
  have hinside : (id :: chain) ⊆ ids := List.cons_subset.mpr ⟨hid, hsubset⟩
  exact (List.subperm_of_subset hlonger hinside).length_le

end Chain

namespace Compiling

open Plan Chain

variable {plan : Plan}

/-- What finishing `id` below `chain` is to end in. -/
def Finishes (plan : Plan) (chain : List String) (finish : String → Compiling Unit) : Prop :=
  ∀ (next : String) (finished : Dict Routine), plan.Settled finished →
    (chain ++ [next]).IsChain plan.Edge →
      Ends (finish next) finished
        (fun _ later => plan.Advance chain finished later ∧ later.contains next)
        (plan.Fault chain next)

theorem meet_ends {above : List String} {id : String} {finish : String → Compiling Unit}
    (hfinish : Finishes plan (above ++ [id]) finish)
    (hpath : (above ++ [id]).IsChain plan.Edge) {demand : Demand}
    (hedge : ∀ next, plan.Eager next demand → plan.Edge id next)
    (finished : Dict Routine) (settled : plan.Settled finished) :
    Ends (meet ⟨plan, finish⟩ id demand) finished
      (fun _ later => plan.Advance (above ++ [id]) finished later ∧
        ∃ found, plan.settle id demand = .ok found ∧
          ∀ next, found = some next → later.contains next)
      (fun error => plan.settle id demand = .error error ∨
        ∃ next, plan.settle id demand = .ok (some next) ∧
          plan.Fault (above ++ [id]) next error) := by
  unfold meet
  cases hsettle : plan.settle id demand with
  | error error => exact Ends.lift_error (Or.inl rfl)
  | ok found =>
      rw [lift_ok, pure_bind]
      cases found with
      | none => exact Ends.pure ⟨Advance.refl settled, none, rfl, by simp⟩
      | some next =>
          have hnext : plan.Edge id next := hedge next ((settle_eq_ok hsettle next).mp rfl)
          have hlonger : (above ++ [id] ++ [next]).IsChain plan.Edge := by
            apply List.IsChain.append hpath (List.isChain_singleton _)
            simpa using hnext
          refine (hfinish next finished settled hlonger).imp ?_ ?_
          · rintro _ later ⟨hadvance, hcontains⟩
            exact ⟨hadvance, some next, rfl, by simpa using hcontains⟩
          · exact fun error hfault => Or.inr ⟨next, rfl, hfault⟩

/-- The demands of the last definition of a chain are met in order, up to the first that fails. -/
theorem meetAll_ends {above : List String} {id : String} {finish : String → Compiling Unit}
    (hfinish : Finishes plan (above ++ [id]) finish)
    (hpath : (above ++ [id]).IsChain plan.Edge) (demands : List Demand)
    (hedges : ∀ demand ∈ demands, ∀ next, plan.Eager next demand → plan.Edge id next)
    (finished : Dict Routine) (settled : plan.Settled finished) :
    Ends (meetAll ⟨plan, finish⟩ id demands) finished
      (fun _ later => plan.Advance (above ++ [id]) finished later ∧
        ∀ demand ∈ demands, ∃ found, plan.settle id demand = .ok found ∧
          ∀ next, found = some next → later.contains next)
      (fun error => ∃ demand ∈ demands, plan.settle id demand = .error error ∨
        ∃ next, plan.settle id demand = .ok (some next) ∧
          plan.Fault (above ++ [id]) next error) := by
  induction demands generalizing finished with
  | nil => exact Ends.pure ⟨Advance.refl settled, by simp⟩
  | cons demand rest ih =>
      have hmeet := meet_ends hfinish hpath (hedges demand List.mem_cons_self) finished settled
      rw [meetAll_cons]
      refine (hmeet.imp (fun _ _ h => h) ?_).bind ?_
      · exact fun error hfault => ⟨demand, List.mem_cons_self, hfault⟩
      · rintro _ later ⟨hadvance, found, hsettle, hnext⟩
        refine (ih (fun other hother => hedges other (List.mem_cons_of_mem _ hother)) later
          hadvance.settled).imp ?_ ?_
        · rintro _ last ⟨hlast, hrest⟩
          refine ⟨hadvance.trans hlast, ?_⟩
          rintro other (_ | ⟨_, hother⟩)
          · exact ⟨found, hsettle, fun next h => hlast.kept next (hnext next h)⟩
          · exact hrest other hother
        · rintro error ⟨other, hother, hfault⟩
          exact ⟨other, List.mem_cons_of_mem _ hother, hfault⟩

/-- A definition whose demands are all met is finished; the error of another demand is marked. -/
theorem finish_routine {above : List String} {id : String} {definition : Definition}
    {finish : String → Compiling Unit} (hfinish : Finishes plan (above ++ [id]) finish)
    (hpath : (above ++ [id]).IsChain plan.Edge) (hnodup : (above ++ [id]).Nodup)
    (hfound : plan.registry.definition? id = some definition) (finished : Dict Routine)
    (settled : plan.Settled finished) :
    Ends (do
        within id (meetAll ⟨plan, finish⟩ id (definition.demands plan.candidates))
        modify (·.insert id (definition.linked plan id))) finished
      (fun _ later => plan.Advance above finished later ∧ later.contains id)
      (plan.Fault above id) := by
  have hedges : ∀ demand ∈ definition.demands plan.candidates, ∀ next,
      plan.Eager next demand → plan.Edge id next := fun demand hdemand next heager =>
    ⟨definition, hfound, demand, hdemand, heager⟩
  have hmeet := meetAll_ends hfinish hpath _ hedges finished settled
  have hfault : ∀ error, (∃ demand ∈ definition.demands plan.candidates,
      plan.settle id demand = .error error ∨
        ∃ next, plan.settle id demand = .ok (some next) ∧ plan.Fault (above ++ [id]) next error) →
      plan.Fault above id (error.within id) := by
    rintro error ⟨demand, hdemand, hsettle | ⟨next, hsettle, hrefused | ⟨longer, hlonger⟩⟩⟩
    · rw [within_of_settle hsettle]
      exact Or.inr ⟨above ++ [id], hnodup, hpath, above, id, rfl, definition, hfound, demand,
        hdemand, error, rfl, Or.inl hsettle⟩
    · rw [within_of_refused hrefused]
      exact Or.inr ⟨above ++ [id], hnodup, hpath, above, id, rfl, definition, hfound, demand,
        hdemand, error, rfl, Or.inr ⟨next, hsettle, hrefused⟩⟩
    · obtain ⟨hdistinct, hchain, start, last, hlast, other, hother, inner, hinner, source, rfl,
        hsource⟩ := hlonger
      exact Or.inr ⟨longer, hdistinct, hchain, start, last, hlast, other, hother, inner, hinner,
        source, rfl, hsource⟩
  refine (Ends.within (hmeet.imp (fun _ _ h => h) hfault)).bind ?_
  rintro _ later ⟨hadvance, hmet⟩
  have hinside : ∀ name, later.contains name →
      (later.insert id (definition.linked plan id)).contains name := fun name hname =>
    (Dict.contains_insert _ _ _ _).mpr (Or.inr hname)
  refine Ends.modify ⟨⟨hadvance.settled.insert hfound hmet, ?_, ?_⟩, ?_⟩
  · exact fun name hname => hinside name (hadvance.kept name hname)
  · intro name hname hcontains
    rcases (Dict.contains_insert _ _ _ _).mp hcontains with rfl | hlater
    · exact absurd rfl ((List.nodup_append.mp hnodup).2.2 name hname name (by simp))
    · exact hadvance.apart name (List.mem_append_left _ hname) hlater
  · exact (Dict.contains_insert _ _ _ _).mpr (Or.inl rfl)

/-- Where everything is finished already, demands that pass their checks do nothing. -/
theorem meetAll_of_settled {id : String} {demands : List Demand}
    (hsettled : ∀ demand ∈ demands, ∃ found, plan.settle id demand = .ok found) :
    meetAll ⟨plan, fun _ => pure ()⟩ id demands = pure () := by
  induction demands with
  | nil => rfl
  | cons demand rest ih =>
      obtain ⟨found, hsettle⟩ := hsettled demand List.mem_cons_self
      have hmeet : meet ⟨plan, fun _ => pure ()⟩ id demand = pure () := by
        rw [meet, hsettle]
        cases found <;> rfl
      rw [meetAll_cons, hmeet, pure_bind,
        ih fun other hother => hsettled other (List.mem_cons_of_mem _ hother)]

/-! ### One call of the walk -/

section Finish

variable {calls : Nat} {chain : List String} {id : String} {finished : Dict Routine}

theorem finish_done (hdone : finished.contains id) :
    finish plan (calls + 1) chain id finished = (pure () : Compiling Unit) finished := by
  change (if finished.contains id then pure () else _ : Compiling Unit) finished = _
  rw [if_pos hdone]

theorem finish_undefined (hnew : ¬ finished.contains id)
    (hfound : plan.registry.definition? id = none) :
    finish plan (calls + 1) chain id finished =
      (lift (.error (.notFound id)) : Compiling Unit) finished := by
  change (if finished.contains id then pure () else _ : Compiling Unit) finished = _
  rw [if_neg hnew, hfound]

theorem finish_refused (hnew : ¬ finished.contains id) {definition : Definition}
    (hfound : plan.registry.definition? id = some definition) {error : Error}
    (henter : Chain.enter plan.maxDepth chain id = .error error) :
    finish plan (calls + 1) chain id finished =
      (lift (.error error) : Compiling Unit) finished := by
  change (if finished.contains id then pure () else _ : Compiling Unit) finished = _
  rw [if_neg hnew, hfound]
  dsimp only
  rw [henter]
  rfl

theorem within_pure_bind {α β γ : Type} (id : String) (act : Compiling α) (b : β)
    (next : β → Compiling γ) :
    (within id (act >>= fun _ => pure b) >>= next) = within id act >>= fun _ => next b := by
  funext finished
  change ((((act finished).bind fun out => .ok (b, out.2)).mapError (·.within id)).bind
    fun out => next out.1 out.2) = ((act finished).mapError (·.within id)).bind fun out => next b out.2
  cases act finished with
  | error error => rfl
  | ok out => rfl

/-- A new definition is finished by meeting its demands. -/
theorem finish_new (hnew : ¬ finished.contains id) (hid : id ∈ plan.ids) {definition : Definition}
    (hfound : plan.registry.definition? id = some definition) {longer : List String}
    (henter : Chain.enter plan.maxDepth chain id = .ok longer) :
    finish plan (calls + 1) chain id finished = (do
      within id (meetAll ⟨plan, finish plan calls longer⟩ id (definition.demands plan.candidates))
      modify (·.insert id (definition.linked plan id)) : Compiling Unit) finished := by
  change (if finished.contains id then pure () else _ : Compiling Unit) finished = _
  rw [if_neg hnew, hfound]
  dsimp only
  rw [henter, lift_ok, pure_bind, routine_eq ⟨plan, _⟩ id definition hid, within_pure_bind]

end Finish

/-- **The walk.** No id is twice in a chain, so the calls suffice. -/
theorem finish_ends (hids : ∀ id definition, plan.registry.definition? id = some definition →
      id ∈ plan.ids) (calls : Nat) (chain : List String)
    (hcalls : plan.ids.length < calls + chain.length) (hnodup : chain.Nodup)
    (hchain : chain ⊆ plan.ids) : Finishes plan chain (finish plan calls chain) := by
  induction calls generalizing chain with
  | zero =>
      have hlength : chain.length ≤ plan.ids.length := (List.subperm_of_subset hnodup hchain).length_le
      omega
  | succ calls ih =>
      intro id finished settled hpath
      by_cases hcontains : finished.contains id
      · exact Ends.of_eq (finish_done hcontains) (Ends.pure ⟨Advance.refl settled, hcontains⟩)
      · cases hfound : plan.registry.definition? id with
        | none =>
            exact Ends.of_eq (finish_undefined hcontains hfound)
              (Ends.lift_error (Or.inl (Or.inl ⟨hfound, rfl⟩)))
        | some definition =>
            cases henter : Chain.enter plan.maxDepth chain id with
            | error error =>
                exact Ends.of_eq (finish_refused hcontains hfound henter)
                  (Ends.lift_error (Or.inl (Or.inr henter)))
            | ok longer =>
                obtain ⟨hfresh, -, rfl⟩ := Chain.enter_eq_ok_iff.mp henter
                have hid : id ∈ plan.ids := hids id definition hfound
                have hnodup' := nodup_concat hnodup hfresh
                have hfinish : Finishes plan (chain ++ [id]) (finish plan calls (chain ++ [id])) := by
                  refine ih (chain ++ [id]) ?_ hnodup' ?_
                  · rw [List.length_append, List.length_singleton]
                    omega
                  · exact concat_subset hchain hid
                exact Ends.of_eq (finish_new hcontains hid hfound henter)
                  (finish_routine hfinish hpath hnodup' hfound finished settled)

theorem finishEach_ends {finish : String → Compiling Unit} (hfinish : Finishes plan [] finish)
    (names : List String) (finished : Dict Routine) (settled : plan.Settled finished) :
    Ends (names.forM finish) finished
      (fun _ later => plan.Advance [] finished later ∧ ∀ id ∈ names, later.contains id)
      (fun error => ∃ id ∈ names, plan.Fault [] id error) := by
  induction names generalizing finished with
  | nil => exact Ends.pure ⟨Advance.refl settled, by simp⟩
  | cons id rest ih =>
      refine Ends.bind ((hfinish id finished settled (List.isChain_singleton id)).imp
        (fun _ _ h => h) fun error hfault => ⟨id, List.mem_cons_self, hfault⟩) ?_
      rintro _ later ⟨hadvance, hcontains⟩
      refine (ih later hadvance.settled).imp ?_ ?_
      · rintro _ last ⟨hlast, hrest⟩
        refine ⟨hadvance.trans hlast, ?_⟩
        rintro name (_ | ⟨_, hname⟩)
        · exact hlast.kept id hcontains
        · exact hrest name hname
      · rintro error ⟨name, hname, hfault⟩
        exact ⟨name, List.mem_cons_of_mem _ hname, hfault⟩

theorem finishAll_ends (registry : Registry) (maxDepth : Nat) :
    Ends (finishAll (.ofRegistry registry maxDepth)) ∅
      (fun _ later => (Plan.ofRegistry registry maxDepth).Settled later ∧
        ∀ id, later.contains id ↔ registry.contains id)
      (fun error => ∃ id, registry.contains id ∧ (Plan.ofRegistry registry maxDepth).Fault [] id error) := by
  have hids : ∀ id definition, registry.definition? id = some definition →
      id ∈ (Plan.ofRegistry registry maxDepth).ids := fun _ _ hfound =>
    mem_ids_of_definition registry maxDepth hfound
  have hfinish : Finishes (Plan.ofRegistry registry maxDepth) [] _ :=
    finish_ends hids ((Plan.ofRegistry registry maxDepth).ids.length + 1) [] (by simp)
      List.nodup_nil (by simp)
  refine (finishEach_ends hfinish _ ∅ settled_empty).imp ?_ ?_
  · rintro _ later ⟨hadvance, hall⟩
    refine ⟨hadvance.settled, fun id => ⟨fun hcontains => ?_, fun hcontains => ?_⟩⟩
    · obtain ⟨routine, hroutine⟩ := Option.isSome_iff_exists.mp hcontains
      obtain ⟨definition, hfound, -⟩ := hadvance.settled.linked hroutine
      exact (mem_ids_iff registry maxDepth).mp (hids id definition hfound)
    · exact hall id ((mem_ids_iff registry maxDepth).mpr hcontains)
  · rintro error ⟨id, hid, hfault⟩
    exact ⟨id, (mem_ids_iff registry maxDepth).mp hid, hfault⟩

end Compiling

namespace Registry

variable {registry : Registry} {config : Config}

theorem compile_of_finishAll {finished : Dict Routine}
    (hfinish : Compiling.finishAll (registry.plan config) ∅ = .ok ((), finished)) :
    registry.compile config = .ok (.ofRoutines (registry.plan config) config.containerClass
      (finished.entries.map Prod.snd)) := by
  unfold compile StateT.run
  dsimp only
  rw [hfinish]
  rfl

theorem compile_of_finishAll_error {error : Error}
    (hfinish : Compiling.finishAll (registry.plan config) ∅ = .error error) :
    registry.compile config = .error error := by
  unfold compile StateT.run
  dsimp only
  rw [hfinish]
  rfl

theorem compile_eq_ok {program : Program} (hcompile : registry.compile config = .ok program) :
    ∃ finished, (registry.plan config).Settled finished ∧
      (∀ id, finished.contains id ↔ registry.contains id) ∧
        program = .ofRoutines (registry.plan config) config.containerClass
          (finished.entries.map Prod.snd) := by
  have hends := Compiling.finishAll_ends registry config.maxDepth
  unfold Compiling.Ends at hends
  split at hends
  · next finished hrun =>
      rw [compile_of_finishAll hrun] at hcompile
      exact ⟨finished, hends.1, hends.2, (Except.ok.inj hcompile).symm⟩
  · next error hrun =>
      rw [compile_of_finishAll_error hrun] at hcompile
      cases hcompile

theorem compile_eq_error {error : Error} (hcompile : registry.compile config = .error error) :
    ∃ id, registry.contains id ∧ (registry.plan config).Fault [] id error := by
  have hends := Compiling.finishAll_ends registry config.maxDepth
  unfold Compiling.Ends at hends
  split at hends
  · next finished hrun =>
      rw [compile_of_finishAll hrun] at hcompile
      cases hcompile
  · next other hrun =>
      rw [compile_of_finishAll_error hrun] at hcompile
      obtain rfl := Except.error.inj hcompile
      exact hends

end Registry

namespace Plan

variable {plan : Plan}

/-- A refusal that is a cycle closes the chain from the first occurrence on. -/
theorem Refused.cycle {chain : List String} {next id : String} {path : List String}
    {source : Error} (hrefused : plan.Refused chain next source)
    (hcause : source.rootCause = .circularReference id path) :
    id = next ∧ next ∈ chain ∧ path = chain.dropWhile (· ≠ next) ++ [next] ∧
      source = .circularReference id path := by
  rcases hrefused with ⟨-, rfl⟩ | henter
  · simp [Error.rootCause] at hcause
  · unfold Chain.enter at henter
    split at henter
    · next hmem =>
        obtain rfl := Except.error.inj henter
        simp only [Error.rootCause, Error.circularReference.injEq] at hcause
        obtain ⟨rfl, rfl⟩ := hcause
        exact ⟨rfl, hmem, rfl, rfl⟩
    · split at henter
      · obtain rfl : _ = source := by simpa using henter
        simp [Error.rootCause] at hcause
      · simp at henter

theorem rootCause_of_settle {id : String} {demand : Demand} {error : Error}
    (hsettle : plan.settle id demand = .error error) (name : String) (path : List String) :
    error.rootCause ≠ .circularReference name path := by
  have hplain := plain_of_settle hsettle
  cases error with
  | circularReference => exact hplain.elim
  | compilation => exact hplain.elim
  | _ => simp [Error.rootCause]

theorem not_cycle_of_acc {id : String} (hacc : Acc (flip plan.Edge) id) :
    ¬ Relation.TransGen plan.Edge id id := by
  intro hcycle
  have hback : Relation.TransGen (flip plan.Edge) id id := Relation.transGen_swap.mpr hcycle
  have hback_acc := hacc.transGen
  clear hacc hcycle
  induction hback_acc with
  | intro id _ ih => exact ih id hback hback

/-- What an id leads to stays apart from a chain that the id is put on. -/
theorem apart_of_edge {id next : String} (hacc : Acc (flip plan.Edge) id)
    (hedge : plan.Edge id next) {chain : List String}
    (hapart : ∀ name, Relation.ReflTransGen plan.Edge id name → name ∉ chain) (name : String)
    (hreach : Relation.ReflTransGen plan.Edge next name) : name ∉ chain ++ [id] := by
  intro hmem
  rcases List.mem_append.mp hmem with hchain | hself
  · exact hapart name (.head hedge hreach) hchain
  · obtain rfl : name = id := List.mem_singleton.mp hself
    exact not_cycle_of_acc hacc (.head' hedge hreach)

/-- The part of a chain from one of its members on ends as the chain does. -/
theorem dropWhile_ne_spec {above : List String} {last next : String}
    (hmem : next ∈ above ++ [last]) :
    ((above ++ [last]).dropWhile (· ≠ next)).head? = some next ∧
      ((above ++ [last]).dropWhile (· ≠ next)).getLast? = some last := by
  induction above with
  | nil =>
      obtain rfl : next = last := by simpa using hmem
      simp
  | cons first rest ih =>
      by_cases here : first = next
      · subst here
        have hlast : (first :: rest ++ [last]).getLast? = some last := List.getLast?_concat
        simpa using hlast
      · have hrest : next ∈ rest ++ [last] := by
          rcases List.mem_cons.mp hmem with rfl | hrest
          · exact absurd rfl here
          · exact hrest
        simpa [List.dropWhile_cons, here] using ih hrest

end Plan

/-- **Cycles.** What compiles has an eager graph without a cycle; a cycle that is reported is one, and
the definition that closes it is named. -/
theorem Registry.compile_cycles (registry : Registry) (config : Config) :
    (∀ program, registry.compile config = .ok program →
      ∀ id, ¬ Relation.TransGen (Plan.ofRegistry registry config.maxDepth).Edge id id) ∧
    ∀ error id path, registry.compile config = .error error →
      error.rootCause = .circularReference id path →
        ∃ cycle last, path = cycle ++ [id] ∧ cycle.head? = some id ∧ cycle.getLast? = some last ∧
          cycle.Nodup ∧ path.IsChain (Plan.ofRegistry registry config.maxDepth).Edge ∧
            error = .compilation last (.circularReference id path) := by
  constructor
  · intro program hcompile id hcycle
    obtain ⟨finished, settled, hall, -⟩ := compile_eq_ok hcompile
    have hcontains : finished.contains id := by
      obtain ⟨next, ⟨definition, hfound, -⟩, -⟩ := Relation.TransGen.head'_iff.mp hcycle
      rw [hall, Registry.contains, Table.contains]
      exact Option.isSome_of_eq_some hfound
    exact Plan.not_cycle_of_acc (settled.grounded hcontains) hcycle
  · intro error id path hcompile hcause
    obtain ⟨start, hstart, hfault⟩ := compile_eq_error hcompile
    rcases hfault with hrefused | ⟨longer, hnodup, hpath, above, last, rfl, hstuck⟩
    · obtain ⟨-, hmem, -⟩ := hrefused.cycle hcause
      simp at hmem
    · obtain ⟨definition, hfound, demand, hdemand, source, rfl, hsettle | ⟨next, hsettle, hrefused⟩⟩ :=
        hstuck
      · exact absurd hcause (Plan.rootCause_of_settle hsettle id path)
      · obtain ⟨rfl, hmem, rfl, rfl⟩ := hrefused.cycle hcause
        obtain ⟨hhead, hlast⟩ := Plan.dropWhile_ne_spec hmem
        have hsuffix := List.dropWhile_suffix (fun name => decide (name ≠ id)) (l := above ++ [last])
        have hedge : (Plan.ofRegistry registry config.maxDepth).Edge last id :=
          ⟨definition, hfound, demand, hdemand, (Plan.settle_eq_ok hsettle id).mp rfl⟩
        refine ⟨_, last, rfl, hhead, hlast, hsuffix.sublist.nodup hnodup, ?_, rfl⟩
        refine (hpath.suffix hsuffix).append (List.isChain_singleton id) ?_
        intro final hfinal other hother
        rw [hlast] at hfinal
        obtain rfl : last = final := by simpa using hfinal
        obtain rfl : id = other := by simpa using hother
        exact hedge

/-- `a` calls `b`, which is lazy and is made with `back`. -/
def Registry.callLoop (back : Argument) : Registry :=
  let made : Definition := .ofEntity (.construct "Made")
  let caller := Registration.set "a" (.ofEntity (.statement (.mk (.service "b") ∅)))
  let called := Registration.set "b"
    { made with arguments := .mk [] [("back", back)], flags := { lazy := true } }
  called.after (caller.after ∅ {}) {}

theorem Registry.callLoop_reachable (back : Argument) : (callLoop back).Reachable :=
  .step _ _ (.step _ _ .empty)

/-- A call is followed although its service is lazy. -/
theorem Registry.callLoop_cycles :
    (∀ id, ¬ Relation.TransGen (Plan.ofRegistry (callLoop (.value .null)) 100).Edge id id) ∧
      ∃ cycle last, ["a", "b", "a"] = cycle ++ ["a"] ∧ cycle.head? = some "a" ∧
        cycle.getLast? = some last ∧ cycle.Nodup ∧
          ["a", "b", "a"].IsChain (Plan.ofRegistry (callLoop (.reference "a")) 100).Edge ∧
            Error.compilation "b" (.circularReference "a" ["a", "b", "a"]) =
              .compilation last (.circularReference "a" ["a", "b", "a"]) := by
  constructor
  · have hcompiles : ((callLoop (.value .null)).compile {}).toOption.isSome := by decide +kernel
    cases hcompile : (callLoop (.value .null)).compile {} with
    | error error => simp [hcompile, Except.toOption] at hcompiles
    | ok program => exact (compile_cycles _ {}).1 program hcompile
  · have hcompile : (callLoop (.reference "a")).compile {} =
        .error (.compilation "b" (.circularReference "a" ["a", "b", "a"])) := by rfl
    exact (compile_cycles _ {}).2 _ "a" ["a", "b", "a"] hcompile rfl

end Wiring
