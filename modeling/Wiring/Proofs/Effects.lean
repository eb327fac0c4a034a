import Wiring.Proofs.Contents
import Wiring.Proofs.Indexing

/-!
# What registrations do to the contents

A single registration, unless it removes something, treats each item by itself: it puts one or two of
them, changes one, or leaves all as they are. Where it puts something, what was there before makes no
difference. Registrations that put things, and change only definitions that they have put themselves,
do the same to the contents when they are repeated.
-/

namespace Wiring

namespace Contents

def put (held : Contents) (item : Item) (value : Option item.Value) : Contents :=
  Function.update held item value

theorem eq_put_iff {held changed : Contents} {item : Item} {value : Option item.Value} :
    changed = held.put item value ↔
      changed item = value ∧ ∀ other, other ≠ item → changed other = held other :=
  Function.eq_update_iff

theorem put_self (held : Contents) (item : Item) (value : Option item.Value) :
    held.put item value item = value :=
  Function.update_self ..

theorem put_of_ne (held : Contents) {item other : Item} (hne : other ≠ item)
    (value : Option item.Value) : held.put item value other = held other :=
  Function.update_of_ne hne ..

/-- A definition displaces an alias of the same name. -/
def define (held : Contents) (id : String) (definition : Definition) : Contents :=
  (held.put (.aliasTarget id) none).put (.definition id) (some definition)

def redefine (held : Contents) (id : String) (change : Definition → Definition) : Contents :=
  held.put (.definition id) ((held (.definition id)).map change)

def untag (held : Contents) : Contents
  | .attributes _ _ => none
  | item => held item

end Contents

/-- Told for each registration that treats each item by itself. -/
def Registration.effect? : Registration → Option (Contents → Contents)
  | .set id definition => some fun held => held.define id (definition.attach id)
  | .autowire id definition types =>
      some fun held => held.define id ((definition.autowire types).attach id)
  | .update id change =>
      some fun held => held.redefine id fun definition => (change definition).attach id
  | .decorate id decorator => some fun held => held.redefine id (·.decorate decorator)
  | .addAlias name target => some fun held => held.put (.aliasTarget name) (some target)
  | .tag id name attributes => some fun held => held.put (.attributes id name) (some attributes)
  | .parameter name value => some fun held => held.put (.parameter name) (some value)
  | .registerClass spec => some fun held => held.put (.classSpec spec.name) (some spec)
  | .exclude typeName => some fun held => held.put (.exclusion typeName) (some ())
  | .resetRuntimeState => some Contents.untag
  | .freeze _ => some id
  | .reindex => some id
  | .remove _ => none
  | .provider _ _ => none

namespace Registry

variable {registry changed : Registry}

theorem content_insert (registry : Registry) (id : String) (definition : Definition)
    {types : TypeIndex} (hexcluded : types.excluded = registry.types.excluded) :
    Registry.content
        { registry with types, definitions := registry.definitions.insert id definition } =
      registry.content.put (.definition id) (some definition) := by
  refine Contents.eq_put_iff.mpr ⟨?_, fun item hne => ?_⟩
  · exact Table.get?_insert_self _ _ _
  · cases item with
    | definition other =>
        have hother : other ≠ id := fun hsame => hne (congrArg Item.definition hsame)
        exact Table.get?_insert_of_ne _ hother _
    | exclusion typeName => exact congrArg (Dict.get? · typeName) hexcluded
    | _ => rfl

theorem content_place (registry : Registry) (id : String) (definition : Definition) :
    (registry.place id definition).content =
      registry.content.put (.definition id) (some definition) :=
  content_insert registry id definition (moves_place .refl id definition).excluded_eq

theorem content_set {id : String} {definition : Definition}
    (hset : registry.set id definition = .ok changed) :
    changed.content = registry.content.define id (definition.attach id) := by
  obtain ⟨-, rfl⟩ := set_eq_ok hset
  have herased : Registry.content { registry with aliases := registry.aliases.erase id } =
      registry.content.put (.aliasTarget id) none := by
    refine Contents.eq_put_iff.mpr ⟨?_, fun item hne => ?_⟩
    · exact (Table.get?_erase _ _ _).trans (if_pos rfl)
    · cases item with
      | aliasTarget other =>
          have hother : other ≠ id := fun hsame => hne (congrArg Item.aliasTarget hsame)
          exact (Table.get?_erase _ _ _).trans (if_neg hother)
      | _ => rfl
  rw [content_place, herased, Contents.define]

theorem content_update {id : String} {change : Definition → Definition}
    (hupdate : registry.update id change = .ok changed) :
    changed.content =
      registry.content.redefine id fun definition => (change definition).attach id := by
  obtain ⟨definition, -, hfound, rfl⟩ := update_eq_ok hupdate
  have hheld : registry.content (.definition id) = some definition := hfound
  rw [content_place, Contents.redefine, hheld, Option.map_some]

theorem content_decorate {id : String} {decorator : Decorator}
    (hdecorate : registry.decorate id decorator = .ok changed) :
    changed.content = registry.content.redefine id (·.decorate decorator) := by
  obtain ⟨definition, -, hfound, rfl⟩ := decorate_eq_ok hdecorate
  have hheld : registry.content (.definition id) = some definition := hfound
  rw [Contents.redefine, hheld, Option.map_some]
  exact content_insert registry id _ rfl

theorem content_addAlias {name target : String}
    (halias : registry.addAlias name target = .ok changed) :
    changed.content = registry.content.put (.aliasTarget name) (some target) := by
  obtain ⟨aliases, hinsert, rfl⟩ := addAlias_eq_ok halias
  obtain ⟨-, -, rfl⟩ := AliasTable.insert_eq_ok_iff.mp hinsert
  refine Contents.eq_put_iff.mpr ⟨?_, fun item hne => ?_⟩
  · exact Table.get?_insert_self _ _ _
  · cases item with
    | aliasTarget other =>
        have hother : other ≠ name := fun hsame => hne (congrArg Item.aliasTarget hsame)
        exact Table.get?_insert_of_ne _ hother _
    | _ => rfl

theorem content_tag (registry : Registry) (id tag : String) (attributes : Value) :
    (registry.tag id tag attributes).content =
      registry.content.put (.attributes id tag) (some attributes) := by
  have hheld : ∀ other name, (registry.tag id tag attributes).content (.attributes other name) =
      if other = id ∧ name = tag then some attributes
      else registry.content (.attributes other name) := by
    intro other name
    rw [content, content, Registry.tag, Table.get?_insert]
    by_cases hid : other = id
    · subst hid
      rw [if_pos rfl, Option.bind_some, Table.get?_insert]
      by_cases hname : name = tag
      · rw [if_pos hname, if_pos ⟨rfl, hname⟩]
      · rw [if_neg hname, if_neg fun both => hname both.2]
        cases registry.tags.get? other with
        | none => rfl
        | some tags => rfl
    · rw [if_neg hid, if_neg fun both => hid both.1]
  refine Contents.eq_put_iff.mpr ⟨?_, fun item hne => ?_⟩
  · rw [hheld, if_pos ⟨rfl, rfl⟩]
  · cases item with
    | attributes other name =>
        rw [hheld, if_neg]
        rintro ⟨rfl, rfl⟩
        exact hne rfl
    | _ => rfl

theorem content_setParameter (registry : Registry) (name : String) (value : Value) :
    (registry.setParameter name value).content =
      registry.content.put (.parameter name) (some value) := by
  refine Contents.eq_put_iff.mpr ⟨?_, fun item hne => ?_⟩
  · exact Dict.get?_insert_self _ _ _
  · cases item with
    | parameter other =>
        have hother : other ≠ name := fun hsame => hne (congrArg Item.parameter hsame)
        exact Dict.get?_insert_of_ne _ hother _
    | _ => rfl

theorem content_reindex (registry : Registry) : registry.reindex.content = registry.content := by
  funext item
  cases item with
  | exclusion typeName =>
      have hexcluded : registry.reindex.types.excluded = registry.types.excluded :=
        (moves_reindex .refl).excluded_eq
      exact congrArg (Dict.get? · typeName) hexcluded
  | _ => rfl

/-- The index is built again, but what it excludes stays. -/
theorem content_registerClass (registry : Registry) (spec : ClassSpec) :
    (registry.registerClass spec).content =
      registry.content.put (.classSpec spec.name) (some spec) := by
  rw [registerClass, content_reindex]
  refine Contents.eq_put_iff.mpr ⟨?_, fun item hne => ?_⟩
  · exact Dict.get?_insert_self _ _ _
  · cases item with
    | classSpec other =>
        have hother : other ≠ spec.name := fun hsame => hne (congrArg Item.classSpec hsame)
        exact Dict.get?_insert_of_ne _ hother _
    | _ => rfl

theorem content_exclude (registry : Registry) (typeName : String) :
    (registry.exclude typeName).content =
      registry.content.put (.exclusion typeName) (some ()) := by
  refine Contents.eq_put_iff.mpr ⟨?_, fun item hne => ?_⟩
  · exact Dict.get?_insert_self _ _ _
  · cases item with
    | exclusion other =>
        have hother : other ≠ typeName := fun hsame => hne (congrArg Item.exclusion hsame)
        exact Dict.get?_insert_of_ne _ hother _
    | _ => rfl

theorem content_resetRuntimeState (registry : Registry) :
    registry.resetRuntimeState.content = registry.content.untag := by
  funext item
  cases item <;> rfl

open Registering

theorem content_performed {op : Registration} {effect : Contents → Contents}
    (heffect : op.effect? = some effect) {setup later : Setup}
    (hrun : op.run.run setup = (.ok (), later)) :
    later.registry.content = effect setup.registry.content := by
  cases op with
  | set id definition =>
      cases heffect
      exact content_set (change_eq_ok (f := (·.set id definition)) hrun)
  | autowire id definition types =>
      cases heffect
      exact content_set (change_eq_ok (f := (·.autowire id definition types)) hrun)
  | update id change =>
      cases heffect
      exact content_update (change_eq_ok (f := (·.update id change)) hrun)
  | decorate id decorator =>
      cases heffect
      exact content_decorate (change_eq_ok (f := (·.decorate id decorator)) hrun)
  | addAlias name target =>
      cases heffect
      exact content_addAlias (change_eq_ok (f := (·.addAlias name target)) hrun)
  | tag id tag attributes =>
      cases heffect
      cases hrun
      exact content_tag setup.registry id tag attributes
  | parameter name value =>
      cases heffect
      cases hrun
      exact content_setParameter setup.registry name value
  | registerClass spec =>
      cases heffect
      cases hrun
      exact content_registerClass setup.registry spec
  | exclude typeName =>
      cases heffect
      cases hrun
      exact content_exclude setup.registry typeName
  | freeze id =>
      cases heffect
      cases hrun
      rfl
  | resetRuntimeState =>
      cases heffect
      cases hrun
      exact content_resetRuntimeState setup.registry
  | reindex =>
      cases heffect
      cases hrun
      exact content_reindex setup.registry
  | remove id => cases heffect
  | provider provider config => cases heffect

end Registry

/-! ### Registrations that can be repeated -/

namespace Registration

/-- It puts something, or changes a definition of the ids that were made. -/
def Repeats (made : List String) : Registration → Prop
  | .update id _ => id ∈ made
  | .decorate id _ => id ∈ made
  | .remove _ => False
  | .provider _ _ => False
  | _ => True

/-- The ids whose definitions it puts. -/
def makes : Registration → List String
  | .set id _ => [id]
  | .autowire id _ _ => [id]
  | _ => []

/-- Each one repeats what it does, where the ones before it have made their ids too. -/
def AllRepeat : List String → List Registration → Prop
  | _, [] => True
  | made, op :: rest => op.Repeats made ∧ AllRepeat (op.makes ++ made) rest

end Registration

namespace Contents

/-- Each item comes to something of its own or stays what it was, and the definitions that were made
come to something of their own. -/
structure Settles (made : List String) (effect : Contents → Contents) : Prop where
  made : ∀ id ∈ made, ∀ held other, effect held (.definition id) = effect other (.definition id)
  settled : ∀ item, (∀ held other, effect held item = effect other item) ∨
    ∀ held, effect held item = held item

namespace Settles

variable {made : List String} {effect : Contents → Contents}

theorem twice (h : Settles made effect) (held : Contents) : effect (effect held) = effect held := by
  funext item
  rcases h.settled item with hfixed | hkept
  · exact hfixed _ _
  · exact hkept _

theorem put (h : Settles made effect) (item : Item) (value : Option item.Value) :
    Settles made fun held => (effect held).put item value where
  made id hid held other := by
    by_cases here : .definition id = item
    · subst here
      rw [put_self, put_self]
    · rw [put_of_ne _ here, put_of_ne _ here, h.made id hid held other]
  settled item' := by
    by_cases here : item' = item
    · subst here
      exact .inl fun _ _ => by rw [put_self, put_self]
    · simp only [put_of_ne _ here]
      exact h.settled item'

theorem define (h : Settles made effect) (id : String) (definition : Definition) :
    Settles (id :: made) fun held => (effect held).define id definition where
  made other hother held held' := by
    rcases List.mem_cons.mp hother with rfl | hother
    · rw [Contents.define, Contents.define, put_self, put_self]
    · exact ((h.put (.aliasTarget id) none).put (.definition id) (some definition)).made other hother
        held held'
  settled := ((h.put (.aliasTarget id) none).put (.definition id) (some definition)).settled

theorem redefine (h : Settles made effect) {id : String} (hid : id ∈ made)
    (change : Definition → Definition) :
    Settles made fun held => (effect held).redefine id change := by
  -- The definition is the same from whatever contents, so that changing it is putting it.
  have hsame : (fun held => (effect held).redefine id change) = fun held =>
      (effect held).put (.definition id) ((effect (fun _ => none) (.definition id)).map change) := by
    funext held
    rw [Contents.redefine, h.made id hid held fun _ => none]
  rw [hsame]
  exact h.put _ _

theorem untag (h : Settles made effect) : Settles made fun held => (effect held).untag where
  made := h.made
  settled item := by
    cases item with
    | attributes id tag => exact .inl fun _ _ => rfl
    | _ => exact h.settled _

theorem performed (h : Settles made effect) {op : Registration} (hrepeats : op.Repeats made) :
    ∃ performing, op.effect? = some performing ∧
      Settles (op.makes ++ made) fun held => performing (effect held) := by
  cases op with
  | set id definition => exact ⟨_, rfl, h.define id _⟩
  | autowire id definition types => exact ⟨_, rfl, h.define id _⟩
  | update id change => exact ⟨_, rfl, h.redefine hrepeats _⟩
  | decorate id decorator => exact ⟨_, rfl, h.redefine hrepeats _⟩
  | addAlias name target => exact ⟨_, rfl, h.put _ _⟩
  | tag id tag attributes => exact ⟨_, rfl, h.put _ _⟩
  | parameter name value => exact ⟨_, rfl, h.put _ _⟩
  | registerClass spec => exact ⟨_, rfl, h.put _ _⟩
  | exclude typeName => exact ⟨_, rfl, h.put _ _⟩
  | freeze id => exact ⟨_, rfl, h⟩
  | resetRuntimeState => exact ⟨_, rfl, h.untag⟩
  | reindex => exact ⟨_, rfl, h⟩
  | remove id => exact hrepeats.elim
  | provider provider config => exact hrepeats.elim

end Settles

end Contents

end Wiring
