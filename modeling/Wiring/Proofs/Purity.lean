import Wiring.Proofs.Correspondence
import Wiring.Registry

/-!
# Pure user code

What pure user code gives depends on its arguments alone. It may look into objects, make new ones and
set the properties of those; it asks no container, forces no handle and changes nothing that was
there before. Where addresses stand for each other such code does the same, and stays alike whatever
addresses its new objects get.
-/

namespace Wiring

/-- Which objects, on either side, may be written to. -/
abbrev Ownership := Nat → Nat → Prop

def Ownership.none : Ownership := fun _ _ => False

namespace Behaviour

variable {α β α' β' : Type}

/-- **Two behaviours that do the same** along a correspondence. New objects join it, and are owned. -/
inductive Alike (V : Correspondence → Ownership → α → α' → Prop) :
    Correspondence → Ownership → Behaviour α → Behaviour α' → Prop
  | ok {R : Correspondence} {own : Ownership} {a : α} {a' : α'} (hvalue : V R own a a') :
      Alike V R own (.done (.ok a)) (.done (.ok a'))
  | error {R : Correspondence} {own : Ownership} (error : Error) :
      Alike V R own (.done (.error error)) (.done (.error error))
  | note {R : Correspondence} {own : Ownership} {n n' : Note} {next : Unit → Behaviour α}
      {next' : Unit → Behaviour α'} (h : Alike V R own (next ()) (next' ())) :
      Alike V R own (.ask (.note n) next) (.ask (.note n') next')
  | allocate {R : Correspondence} {own : Ownership} {className : String}
      {next : ObjectRef → Behaviour α} {next' : ObjectRef → Behaviour α'}
      (h : ∀ x y, (∀ z, ¬ R .objects x z) → (∀ z, ¬ R .objects z y) →
        Alike V (R ⊔ .pair .objects x y) (fun a b => own a b ∨ (a = x ∧ b = y))
          (next ⟨x, className⟩) (next' ⟨y, className⟩)) :
      Alike V R own (.ask (.allocate className) next) (.ask (.allocate className) next')
  | properties {R : Correspondence} {own : Ownership} {o o' : ObjectRef}
      {next : Dict Value → Behaviour α} {next' : Dict Value → Behaviour α'}
      (hsame : R .objects o.address o'.address)
      (h : ∀ p q : Dict Value, p.Alike R q → Alike V R own (next p) (next' q)) :
      Alike V R own (.ask (.properties o) next) (.ask (.properties o') next')
  | setProperty {R : Correspondence} {own : Ownership} {o o' : ObjectRef} {name : String}
      {v w : Value} {next : Unit → Behaviour α} {next' : Unit → Behaviour α'}
      (hsame : R .objects o.address o'.address) (howned : own o.address o'.address)
      (hvalue : v.Alike R w) (h : Alike V R own (next ()) (next' ())) :
      Alike V R own (.ask (.setProperty o name v) next) (.ask (.setProperty o' name w) next')

variable {V : Correspondence → Ownership → α → α' → Prop}
  {W : Correspondence → Ownership → β → β' → Prop} {R : Correspondence} {own more : Ownership}

/-- Who owns more may do more. -/
theorem Alike.owning {V : Correspondence → α → α' → Prop} {b : Behaviour α} {b' : Behaviour α'}
    (h : Alike (fun R _ => V R) R own b b') (hle : own ≤ more) :
    Alike (fun R _ => V R) R more b b' := by
  induction h generalizing more with
  | ok hvalue => exact .ok hvalue
  | error error => exact .error error
  | note h ih => exact .note (ih hle)
  | allocate h ih =>
      refine .allocate fun x y hx hy => ih x y hx hy fun a b => ?_
      exact Or.imp_left (hle a b)
  | properties hsame h ih => exact .properties hsame fun p q hpq => ih p q hpq hle
  | setProperty hsame howned hvalue h ih =>
      exact .setProperty hsame (hle _ _ howned) hvalue (ih hle)

theorem Alike.bind {b : Behaviour α} {b' : Behaviour α'} {next : α → Behaviour β}
    {next' : α' → Behaviour β'} (h : Alike V R own b b')
    (hnext : ∀ S own a a', R ≤ S → V S own a a' → Alike W S own (next a) (next' a')) :
    Alike W R own (b.bind next) (b'.bind next') := by
  induction h with
  | ok hvalue => exact hnext _ _ _ _ (le_refl _) hvalue
  | error error => exact .error error
  | note h ih => exact .note (ih hnext)
  | allocate h ih =>
      refine .allocate fun x y hx hy => ih x y hx hy fun S own a a' hle => ?_
      exact hnext S own a a' (le_sup_left.trans hle)
  | properties hsame h ih => exact .properties hsame fun p q hpq => ih p q hpq hnext
  | setProperty hsame howned hvalue h ih => exact .setProperty hsame howned hvalue (ih hnext)

/-- Both give the values, and own the objects that these are. -/
def Owned (R : Correspondence) (own : Ownership) (o o' : ObjectRef) : Prop :=
  own o.address o'.address ∧ (Value.object o).Alike R (.object o')

theorem alike_setProperties {o o' : ObjectRef} (hsame : R .objects o.address o'.address)
    (howned : own o.address o'.address) {properties properties' : List (String × Value)}
    (h : Value.EntriesAlike R properties properties') :
    Alike (fun S more _ _ => S = R ∧ more = own) R own (setProperties o properties)
      (setProperties o' properties') := by
  induction properties generalizing properties' with
  | nil =>
      cases properties' with
      | nil => exact .ok ⟨rfl, rfl⟩
      | cons property' rest' => exact h.elim
  | cons property rest ih =>
      cases properties' with
      | nil => exact h.elim
      | cons property' rest' =>
          obtain ⟨hname, hvalue, hrest⟩ := h
          obtain ⟨name, v⟩ := property
          obtain ⟨name', w⟩ := property'
          obtain rfl : name = name' := hname
          exact .setProperty hsame howned hvalue (ih hrest)

end Behaviour

/-- Pure code may know some addresses by itself. -/
structure Catalog.Pure (known : Correspondence) (catalog : Catalog) : Prop where
  construct : ∀ {className : String} {spec : ClassSpec} {construct : CallArgs → Behaviour ObjectRef},
    catalog.class? className = some spec → spec.construct = some construct →
      ∀ {R : Correspondence}, R.Bijective → known ≤ R → ∀ {args args' : CallArgs},
        args.Alike R args' →
          Behaviour.Alike Behaviour.Owned R .none (construct args) (construct args')
  method : ∀ {o o' : ObjectRef} {name : String}
    {method : ObjectRef → CallArgs → Behaviour Value},
    catalog.method? o name = some method → ∀ {R : Correspondence}, R.Bijective → known ≤ R →
      (Value.object o).Alike R (.object o') → ∀ {args args' : CallArgs}, args.Alike R args' →
        Behaviour.Alike (fun R _ => Value.Alike R) R .none (method o args) (method o' args')

/-- All user code that containers of the registry run when they make services is pure. -/
structure Registry.Pure (known : Correspondence) (registry : Registry) (code : Array Code) :
    Prop where
  catalog : registry.catalog.Pure known
  decorators : ∀ {id : String} {definition : Definition},
    registry.definition? id = some definition → ∀ decorator ∈ definition.decorators,
      ∀ (c : ContainerRef) {R : Correspondence}, R.Bijective → known ≤ R → ∀ {v w : Value},
        v.Alike R w →
          Behaviour.Alike (fun R _ => Value.Alike R) R .none (decorator.apply c v)
            (decorator.apply c w)
  code : ∀ body ∈ code, ∀ (c : ContainerRef) {R : Correspondence}, R.Bijective → known ≤ R →
    ∀ {args args' : CallArgs}, args.Alike R args' →
      Behaviour.Alike (fun R _ => Value.Alike R) R .none (body c args) (body c args')

namespace Value

variable {R : Correspondence}

theorem AllAlike.length_eq {vs ws : List Value} (h : AllAlike R vs ws) : vs.length = ws.length :=
  (allAlike_iff.mp h).length_eq

theorem AllAlike.zip {vs ws : List Value} (h : AllAlike R vs ws) (names : List String) :
    EntriesAlike R (names.zip vs) (names.zip ws) := by
  induction names generalizing vs ws with
  | nil => exact trivial
  | cons name rest ih =>
      cases vs with
      | nil =>
          cases ws with
          | nil => exact trivial
          | cons w ws => exact h.elim
      | cons v vs =>
          cases ws with
          | nil => exact h.elim
          | cons w ws => exact ⟨rfl, h.1, ih h.2⟩

theorem EntriesAlike.append {vs ws vs' ws' : List (String × Value)} (h : EntriesAlike R vs ws)
    (h' : EntriesAlike R vs' ws') : EntriesAlike R (vs ++ vs') (ws ++ ws') := by
  induction vs generalizing ws with
  | nil =>
      cases ws with
      | nil => exact h'
      | cons w ws => exact h.elim
  | cons v vs ih =>
      cases ws with
      | nil => exact h.elim
      | cons w ws => exact ⟨h.1, h.2.1, ih h.2.2⟩

end Value

namespace Catalog

variable {known R : Correspondence} {catalog : Catalog}

theorem Pure.instantiate (pure : catalog.Pure known) (hbijective : R.Bijective) (hknown : known ≤ R)
    (id className : String) {args args' : CallArgs} (hargs : args.Alike R args') :
    Behaviour.Alike (fun R own v w => ∃ o o', v = .object o ∧ w = .object o' ∧
        Behaviour.Owned R own o o') R .none
      (catalog.instantiate id className args) (catalog.instantiate id className args') := by
  unfold Catalog.instantiate
  rw [hargs.positional.length_eq]
  cases hcheck : catalog.ensureInstantiable id className args'.positional.length with
  | error error => exact .error error
  | ok checked =>
      cases hconstruct : (catalog.class? className).bind ClassSpec.construct with
      | some construct =>
          obtain ⟨spec, hspec, hmake⟩ := Option.bind_eq_some_iff.mp hconstruct
          refine (pure.construct hspec hmake hbijective hknown hargs).bind
            fun S own o o' _ howned => ?_
          exact .ok ⟨o, o', rfl, rfl, howned⟩
      | none =>
          refine .allocate fun x y hx hy => ?_
          have hle : R ≤ R ⊔ .pair .objects x y := le_sup_left
          let o : ObjectRef := ⟨x, className⟩
          let o' : ObjectRef := ⟨y, className⟩
          have hsame : (R ⊔ .pair .objects x y) .objects o.address o'.address := .inr ⟨rfl, rfl, rfl⟩
          have hproperties := (hargs.positional.mono hle).zip
            (((catalog.class? className).map ClassSpec.params).getD [])
          refine (Behaviour.alike_setProperties hsame (.inr ⟨rfl, rfl⟩)
            (hproperties.append (hargs.named.mono hle))).bind ?_
          rintro S own _ _ - ⟨rfl, rfl⟩
          exact .ok ⟨_, _, rfl, rfl, .inr ⟨rfl, rfl⟩, hsame, rfl⟩

theorem method?_alike {o o' : ObjectRef} (h : (Value.object o).Alike R (.object o'))
    (name : String) : catalog.method? o name = catalog.method? o' name := by
  unfold Catalog.method?
  rw [h.2]

theorem Pure.callMethod (pure : catalog.Pure known) (hbijective : R.Bijective) (hknown : known ≤ R)
    (id : String) {o o' : ObjectRef} (hobject : (Value.object o).Alike R (.object o')) (name : String)
    {args args' : CallArgs} (hargs : args.Alike R args') :
    Behaviour.Alike (fun R _ => Value.Alike R) R .none (catalog.callMethod id o name args)
      (catalog.callMethod id o' name args') := by
  unfold Catalog.callMethod
  rw [← method?_alike hobject]
  cases hmethod : catalog.method? o name with
  | some method => exact pure.method hmethod hbijective hknown hobject hargs
  | none =>
      dsimp only
      rw [hobject.2]
      exact .error _

theorem alike_memberArgs {v w : Value} (h : v.Alike R w) : (memberArgs v).Alike R (memberArgs w) := by
  cases v <;> cases w <;> first
    | exact h.elim
    | exact CallArgs.alike_sole h
    | exact ⟨h, Dict.alike_empty⟩

/-- A member may be bound to an object that is owned. -/
theorem Pure.applyMember (pure : catalog.Pure known) (hbijective : R.Bijective) (hknown : known ≤ R)
    {o o' : ObjectRef} (hobject : (Value.object o).Alike R (.object o')) (name : String)
    {v w : Value} (hvalue : v.Alike R w) :
    Behaviour.Alike (fun _ _ _ _ => True) R (fun x y => x = o.address ∧ y = o'.address)
      (catalog.applyMember o name v) (catalog.applyMember o' name w) := by
  unfold Catalog.applyMember
  rw [← method?_alike hobject]
  cases hmethod : catalog.method? o name with
  | some method =>
      have hcalled := pure.method hmethod hbijective hknown hobject (alike_memberArgs hvalue)
      exact (hcalled.owning fun _ _ h => h.elim).bind fun _ _ _ _ _ _ => .ok trivial
  | none => exact .setProperty hobject.1 ⟨rfl, rfl⟩ hvalue (.ok trivial)

end Catalog
end Wiring
