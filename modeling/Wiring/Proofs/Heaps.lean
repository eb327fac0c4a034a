import Wiring.Proofs.Correspondence
import Wiring.Store

/-!
# Stores side by side

Two stores are alike along a correspondence if what stands for each other has like contents. A `Heap` is
such a pair of stores, each grown out of a base that it leaves as it was; what pure user code does to
both of them keeps it one.
-/

namespace Wiring

structure LazyCell.Alike (R : Correspondence) (a b : LazyCell) : Prop where
  home : a.home = b.home
  value : Option.Rel (Value.Alike R) a.value b.value

namespace LazyCell

variable {R S : Correspondence} {a b d : LazyCell}

theorem Alike.mono (hle : R ≤ S) (h : a.Alike R b) : a.Alike S b where
  home := h.home
  value := by
    have hvalue := h.value
    generalize a.value = x, b.value = y at hvalue
    cases hvalue with
    | none => exact .none
    | some hsame => exact .some (hsame.mono hle)

theorem Alike.flip (h : a.Alike R b) : b.Alike R.flip a where
  home := h.home.symm
  value := by
    have hvalue := h.value
    generalize a.value = x, b.value = y at hvalue
    cases hvalue with
    | none => exact .none
    | some hsame => exact .some hsame.flip

theorem Alike.comp (h : a.Alike R b) (h' : b.Alike S d) : a.Alike (R.comp S) d where
  home := h.home.trans h'.home
  value := by
    have hvalue := h.value
    have hvalue' := h'.value
    generalize a.value = x, b.value = y, d.value = z at hvalue hvalue'
    cases hvalue with
    | none => cases hvalue' with
      | none => exact .none
    | some hsame => cases hvalue' with
      | some hsame' => exact .some (hsame.comp hsame')

end LazyCell

namespace Store

def size (store : Store) : Space → Nat
  | .objects => store.objects.size
  | .handles => store.cells.size

/-- All its addresses, each for itself. -/
def addresses (store : Store) : Correspondence := fun space x y => x = y ∧ x < store.size space

/-- Addresses that are new to both stores. -/
def beyond (a b : Store) : Correspondence := fun space x y => a.size space ≤ x ∧ b.size space ≤ y

/-- What stands for each other is there, with like contents. -/
structure Alike (R : Correspondence) (a b : Store) : Prop where
  objects : ∀ {x y : Nat}, R .objects x y →
    ∃ p q, a.objects[x]? = some p ∧ b.objects[y]? = some q ∧ p.Alike R q
  handles : ∀ {x y : Nat}, R .handles x y →
    ∃ p q, a.cells[x]? = some p ∧ b.cells[y]? = some q ∧ p.Alike R q

/-- What is there in the base is still there, as it was. -/
structure Extends (base store : Store) : Prop where
  code : store.code = base.code
  objects : ∀ {x : Nat} {p : Dict Value}, base.objects[x]? = some p → store.objects[x]? = some p
  handles : ∀ {x : Nat} {p : LazyCell}, base.cells[x]? = some p → store.cells[x]? = some p

section Alike

variable {R S : Correspondence} {a b d : Store}

theorem Alike.bounds (h : a.Alike R b) {space : Space} {x y : Nat} (hxy : R space x y) :
    x < a.size space ∧ y < b.size space := by
  cases space with
  | objects =>
      obtain ⟨p, q, hp, hq, -⟩ := h.objects hxy
      exact ⟨(Array.getElem?_eq_some_iff.mp hp).1, (Array.getElem?_eq_some_iff.mp hq).1⟩
  | handles =>
      obtain ⟨p, q, hp, hq, -⟩ := h.handles hxy
      exact ⟨(Array.getElem?_eq_some_iff.mp hp).1, (Array.getElem?_eq_some_iff.mp hq).1⟩

theorem Alike.flip (h : a.Alike R b) : b.Alike R.flip a where
  objects hxy := by
    obtain ⟨p, q, hp, hq, hsame⟩ := h.objects hxy
    exact ⟨q, p, hq, hp, hsame.flip⟩
  handles hxy := by
    obtain ⟨p, q, hp, hq, hsame⟩ := h.handles hxy
    exact ⟨q, p, hq, hp, hsame.flip⟩

theorem Alike.comp (h : a.Alike R b) (h' : b.Alike S d) : a.Alike (R.comp S) d where
  objects := by
    rintro x z ⟨y, hxy, hyz⟩
    obtain ⟨p, q, hp, hq, hsame⟩ := h.objects hxy
    obtain ⟨q', r, hq', hr, hsame'⟩ := h'.objects hyz
    obtain rfl : q = q' := Option.some.inj (hq.symm.trans hq')
    exact ⟨p, r, hp, hr, hsame.comp hsame'⟩
  handles := by
    rintro x z ⟨y, hxy, hyz⟩
    obtain ⟨p, q, hp, hq, hsame⟩ := h.handles hxy
    obtain ⟨q', r, hq', hr, hsame'⟩ := h'.handles hyz
    obtain rfl : q = q' := Option.some.inj (hq.symm.trans hq')
    exact ⟨p, r, hp, hr, hsame.comp hsame'⟩

theorem Alike.sup (h : a.Alike R b) (h' : a.Alike S b) : a.Alike (R ⊔ S) b where
  objects := by
    rintro x y (hxy | hxy)
    · obtain ⟨p, q, hp, hq, hsame⟩ := h.objects hxy
      exact ⟨p, q, hp, hq, hsame.mono le_sup_left⟩
    · obtain ⟨p, q, hp, hq, hsame⟩ := h'.objects hxy
      exact ⟨p, q, hp, hq, hsame.mono le_sup_right⟩
  handles := by
    rintro x y (hxy | hxy)
    · obtain ⟨p, q, hp, hq, hsame⟩ := h.handles hxy
      exact ⟨p, q, hp, hq, hsame.mono le_sup_left⟩
    · obtain ⟨p, q, hp, hq, hsame⟩ := h'.handles hxy
      exact ⟨p, q, hp, hq, hsame.mono le_sup_right⟩

theorem Alike.domain (h : a.Alike R b) (hbijective : R.Bijective) : a.Alike R.domain a where
  objects := by
    rintro x _ ⟨rfl, y, hxy⟩
    obtain ⟨p, q, hp, hq, hsame⟩ := h.objects hxy
    exact ⟨p, p, hp, hp, (hsame.comp hsame.flip).mono hbijective.comp_flip⟩
  handles := by
    rintro x _ ⟨rfl, y, hxy⟩
    obtain ⟨p, q, hp, hq, hsame⟩ := h.handles hxy
    exact ⟨p, p, hp, hp, (hsame.comp hsame.flip).mono hbijective.comp_flip⟩

/-- Contents as they were in two other stores are like there as well. -/
theorem Alike.later (h : a.Alike R b) (S : Correspondence) (a' b' : Store) (hle : R ≤ S)
    (hleft : ∀ {x y}, R .objects x y → a'.objects[x]? = a.objects[x]?)
    (hright : ∀ {x y}, R .objects x y → b'.objects[y]? = b.objects[y]?)
    (hleft' : ∀ {x y}, R .handles x y → a'.cells[x]? = a.cells[x]?)
    (hright' : ∀ {x y}, R .handles x y → b'.cells[y]? = b.cells[y]?) :
    (∀ {x y}, R .objects x y →
      ∃ p q, a'.objects[x]? = some p ∧ b'.objects[y]? = some q ∧ p.Alike S q) ∧
    ∀ {x y}, R .handles x y →
      ∃ p q, a'.cells[x]? = some p ∧ b'.cells[y]? = some q ∧ p.Alike S q := by
  constructor
  · intro x y hxy
    obtain ⟨p, q, hp, hq, hsame⟩ := h.objects hxy
    exact ⟨p, q, (hleft hxy).trans hp, (hright hxy).trans hq, hsame.mono hle⟩
  · intro x y hxy
    obtain ⟨p, q, hp, hq, hsame⟩ := h.handles hxy
    exact ⟨p, q, (hleft' hxy).trans hp, (hright' hxy).trans hq, hsame.mono hle⟩

end Alike

section Extends

variable {base store later : Store}

theorem Extends.refl (base : Store) : base.Extends base := ⟨rfl, fun h => h, fun h => h⟩

theorem Extends.trans (h : base.Extends store) (h' : store.Extends later) :
    base.Extends later :=
  ⟨h'.code.trans h.code, fun hp => h'.objects (h.objects hp), fun hp => h'.handles (h.handles hp)⟩

theorem Extends.size_le (h : base.Extends store) (space : Space) :
    base.size space ≤ store.size space := by
  by_contra hless
  cases space with
  | objects =>
      have hp := h.objects (Array.getElem?_eq_getElem (Nat.not_le.mp hless))
      exact absurd (Array.getElem?_eq_some_iff.mp hp).1 (Nat.lt_irrefl _)
  | handles =>
      have hp := h.handles (Array.getElem?_eq_getElem (Nat.not_le.mp hless))
      exact absurd (Array.getElem?_eq_some_iff.mp hp).1 (Nat.lt_irrefl _)

theorem Extends.objects_eq (h : base.Extends store) {x : Nat} (hx : x < base.objects.size) :
    store.objects[x]? = base.objects[x]? := by
  rw [Array.getElem?_eq_getElem hx]
  exact h.objects (Array.getElem?_eq_getElem hx)

theorem Extends.handles_eq (h : base.Extends store) {x : Nat} (hx : x < base.cells.size) :
    store.cells[x]? = base.cells[x]? := by
  rw [Array.getElem?_eq_getElem hx]
  exact h.handles (Array.getElem?_eq_getElem hx)

/-- What is alike stays alike where more is added. -/
theorem Alike.extend {R : Correspondence} {a b a' b' : Store} (h : a.Alike R b) (ha : a.Extends a')
    (hb : b.Extends b') : a'.Alike R b' where
  objects hxy := by
    obtain ⟨p, q, hp, hq, hsame⟩ := h.objects hxy
    exact ⟨p, q, ha.objects hp, hb.objects hq, hsame⟩
  handles hxy := by
    obtain ⟨p, q, hp, hq, hsame⟩ := h.handles hxy
    exact ⟨p, q, ha.handles hp, hb.handles hq, hsame⟩

theorem extends_record (store : Store) (event : Event) : store.Extends (store.record event) :=
  ⟨rfl, fun h => h, fun h => h⟩

theorem Extends.allocate (h : base.Extends store) (className : String) :
    base.Extends (store.allocate className).2 where
  code := h.code
  handles := h.handles
  objects {x p} hp := by
    have hstore := h.objects hp
    change (store.objects.push ∅)[x]? = some p
    rw [Array.getElem?_push_lt (Array.getElem?_eq_some_iff.mp hstore).1,
      ← Array.getElem?_eq_getElem, hstore]

theorem Extends.addHandle (h : base.Extends store) (target : String) (home : Option ContainerRef) :
    base.Extends (store.addHandle target home).2 where
  code := h.code
  objects := h.objects
  handles {x p} hp := by
    have hstore := h.handles hp
    change (store.cells.push _)[x]? = some p
    rw [Array.getElem?_push_lt (Array.getElem?_eq_some_iff.mp hstore).1,
      ← Array.getElem?_eq_getElem, hstore]

/-- Objects that are not in the base may change. -/
theorem Extends.setProperty (h : base.Extends store) {o : ObjectRef}
    (hnew : base.objects.size ≤ o.address) (name : String) (value : Value) :
    base.Extends (store.setProperty o name value) where
  code := h.code
  handles := h.handles
  objects {x p} hp := by
    have hx : x < base.objects.size := (Array.getElem?_eq_some_iff.mp hp).1
    change (store.objects.modify o.address _)[x]? = some p
    rw [Array.getElem?_modify, if_neg (by omega)]
    exact h.objects hp

end Extends

end Store

/-- Two stores alike along a correspondence, each grown out of its base. -/
structure Heap (floor : Correspondence) (base base' : Store) (R : Correspondence) (a b : Store) :
    Prop where
  bijective : R.Bijective
  floor : floor ≤ R
  alike : a.Alike R b
  left : base.Extends a
  right : base'.Extends b

namespace Heap

variable {floor R : Correspondence} {base base' a b : Store}

theorem start (hbijective : floor.Bijective) (halike : base.Alike floor base') :
    Heap floor base base' floor base base' :=
  ⟨hbijective, le_refl _, halike, .refl base, .refl base'⟩

variable (h : Heap floor base base' R a b)

include h

theorem record_left (event : Event) : Heap floor base base' R (a.record event) b :=
  ⟨h.bijective, h.floor, ⟨h.alike.objects, h.alike.handles⟩, h.left.trans (a.extends_record event),
    h.right⟩

theorem record_right (event : Event) : Heap floor base base' R a (b.record event) :=
  ⟨h.bijective, h.floor, ⟨h.alike.objects, h.alike.handles⟩, h.left,
    h.right.trans (b.extends_record event)⟩

theorem unpaired (space : Space) :
    (∀ z, ¬ R space (a.size space) z) ∧ ∀ z, ¬ R space z (b.size space) :=
  ⟨fun _ hz => Nat.lt_irrefl _ (h.alike.bounds hz).1, fun _ hz => Nat.lt_irrefl _ (h.alike.bounds hz).2⟩

theorem paired (space : Space) :
    (R ⊔ .pair space (a.size space) (b.size space)).Bijective :=
  h.bijective.with_pair (h.unpaired space).1 (h.unpaired space).2

/-- **New objects** stand for each other. -/
theorem allocate (className : String) :
    Heap floor base base' (R ⊔ .pair .objects a.objects.size b.objects.size)
      (a.allocate className).2 (b.allocate className).2 where
  bijective := h.paired .objects
  floor := h.floor.trans le_sup_left
  left := h.left.allocate className
  right := h.right.allocate className
  alike := by
    obtain ⟨hobjects, hhandles⟩ := h.alike.later
      (R ⊔ .pair .objects a.objects.size b.objects.size) (a.allocate className).2
      (b.allocate className).2 le_sup_left
      (fun hxy => ((Store.Extends.refl a).allocate className).objects_eq (h.alike.bounds hxy).1)
      (fun hxy => ((Store.Extends.refl b).allocate className).objects_eq (h.alike.bounds hxy).2)
      (fun _ => rfl) (fun _ => rfl)
    refine ⟨fun {x y} hxy => ?_, fun {x y} hxy => ?_⟩
    · rcases hxy with hxy | ⟨-, rfl, rfl⟩
      · exact hobjects hxy
      · exact ⟨∅, ∅, Array.getElem?_push_size, Array.getElem?_push_size, Dict.alike_empty⟩
    · rcases hxy with hxy | ⟨hspace, -⟩
      · exact hhandles hxy
      · cases hspace

/-- **New handles** stand for each other. -/
theorem addHandle (target : String) (home : Option ContainerRef) :
    Heap floor base base' (R ⊔ .pair .handles a.cells.size b.cells.size)
      (a.addHandle target home).2 (b.addHandle target home).2 where
  bijective := h.paired .handles
  floor := h.floor.trans le_sup_left
  left := h.left.addHandle target home
  right := h.right.addHandle target home
  alike := by
    obtain ⟨hobjects, hhandles⟩ := h.alike.later
      (R ⊔ .pair .handles a.cells.size b.cells.size) (a.addHandle target home).2
      (b.addHandle target home).2 le_sup_left (fun _ => rfl) (fun _ => rfl)
      (fun hxy => ((Store.Extends.refl a).addHandle target home).handles_eq (h.alike.bounds hxy).1)
      (fun hxy => ((Store.Extends.refl b).addHandle target home).handles_eq (h.alike.bounds hxy).2)
    refine ⟨fun {x y} hxy => ?_, fun {x y} hxy => ?_⟩
    · rcases hxy with hxy | ⟨hspace, -⟩
      · exact hobjects hxy
      · cases hspace
    · rcases hxy with hxy | ⟨-, rfl, rfl⟩
      · exact hhandles hxy
      · exact ⟨{ home }, { home }, Array.getElem?_push_size, Array.getElem?_push_size, rfl, .none⟩

theorem properties {o o' : ObjectRef} (hsame : R .objects o.address o'.address) :
    (a.properties o).Alike R (b.properties o') := by
  obtain ⟨p, q, hp, hq, hcontents⟩ := h.alike.objects hsame
  rw [Store.properties, Store.properties, hp, hq]
  exact hcontents

/-- **Properties** of new objects may be set on both. -/
theorem setProperty {o o' : ObjectRef} (hsame : R .objects o.address o'.address)
    (hnew : base.objects.size ≤ o.address) (hnew' : base'.objects.size ≤ o'.address) (name : String)
    {v w : Value} (hvalue : v.Alike R w) :
    Heap floor base base' R (a.setProperty o name v) (b.setProperty o' name w) where
  bijective := h.bijective
  floor := h.floor
  left := h.left.setProperty hnew name v
  right := h.right.setProperty hnew' name w
  alike := by
    refine ⟨fun {x y} hxy => ?_, h.alike.handles⟩
    obtain ⟨p, q, hp, hq, hcontents⟩ := h.alike.objects hxy
    have hboth : o.address = x ↔ o'.address = y := h.bijective hsame hxy
    change ∃ p q, (a.objects.modify o.address _)[x]? = some p ∧
      (b.objects.modify o'.address _)[y]? = some q ∧ p.Alike R q
    rw [Array.getElem?_modify, Array.getElem?_modify, hp, hq]
    by_cases hset : o.address = x
    · rw [if_pos hset, if_pos (hboth.mp hset)]
      exact ⟨_, _, rfl, rfl, hcontents.insert name hvalue⟩
    · rw [if_neg hset, if_neg fun hset' => hset (hboth.mpr hset')]
      exact ⟨p, q, rfl, rfl, hcontents⟩

end Heap
end Wiring
