import Mathlib.Data.List.Forall2
import Mathlib.Order.ConditionallyCompleteLattice.Basic
import Wiring.Value

/-!
# Values in two stores

Two runs that do the same may put what they make at different addresses. A correspondence says which
addresses of one store stand for which of another; values are alike if they are the same up to that.
-/

namespace Wiring

/-- Where references point to. -/
inductive Space where
  | objects
  | handles

/-- Which addresses stand for each other. -/
abbrev Correspondence := Space → Nat → Nat → Prop

namespace Correspondence

/-- Every address stands for itself. -/
def same : Correspondence := fun _ x y => x = y

/-- These two, and no others. -/
def pair (space : Space) (x y : Nat) : Correspondence := fun other a b => other = space ∧ a = x ∧ b = y

def flip (R : Correspondence) : Correspondence := fun space x y => R space y x

def comp (R S : Correspondence) : Correspondence := fun space x z => ∃ y, R space x y ∧ S space y z

/-- Every address that stands for one stands for itself. -/
def domain (R : Correspondence) : Correspondence := fun space x y => x = y ∧ ∃ z, R space x z

/-- On neither side do two stand for the same one. -/
def Bijective (R : Correspondence) : Prop :=
  ∀ ⦃space x y x' y'⦄, R space x y → R space x' y' → (x = x' ↔ y = y')

variable {R S : Correspondence}

theorem Bijective.flip (h : R.Bijective) : R.flip.Bijective :=
  fun _ _ _ _ _ hxy hxy' => (h hxy hxy').symm

theorem Bijective.comp (h : R.Bijective) (h' : S.Bijective) : (R.comp S).Bijective := by
  rintro space x z x' z' ⟨y, hxy, hyz⟩ ⟨y', hxy', hyz'⟩
  exact (h hxy hxy').trans (h' hyz hyz')

theorem bijective_of_le_same (h : R ≤ same) : R.Bijective := by
  intro space x y x' y' hxy hxy'
  rw [h space x y hxy, h space x' y' hxy']

theorem Bijective.comp_flip (h : R.Bijective) : R.comp R.flip ≤ R.domain := by
  rintro space x z ⟨y, hxy, hzy⟩
  exact ⟨(h hxy hzy).mpr rfl, y, hxy⟩

theorem domain_le_same (R : Correspondence) : R.domain ≤ same := fun _ _ _ h => h.1

theorem le_domain (hsame : S ≤ same) (hle : S ≤ R) : S ≤ R.domain := by
  intro space x y h
  exact ⟨hsame space x y h, y, hle space x y h⟩

theorem Bijective.sup (h : R.Bijective) (h' : S.Bijective)
    (hacross : ∀ {space x y x' y'}, R space x y → S space x' y' → (x = x' ↔ y = y')) :
    (R ⊔ S).Bijective := by
  rintro space x y x' y' (hxy | hxy) (hxy' | hxy')
  · exact h hxy hxy'
  · exact hacross hxy hxy'
  · have hflipped := hacross hxy' hxy
    exact ⟨fun hx => (hflipped.mp hx.symm).symm, fun hy => (hflipped.mpr hy.symm).symm⟩
  · exact h' hxy hxy'

/-- Two that are new on either side may stand for each other. -/
theorem Bijective.with_pair (h : R.Bijective) {space : Space} {x y : Nat}
    (hleft : ∀ z, ¬ R space x z) (hright : ∀ z, ¬ R space z y) :
    (R ⊔ pair space x y).Bijective := by
  refine h.sup (fun other a b a' b' ⟨_, hx, hy⟩ ⟨_, hx', hy'⟩ => ?_) ?_
  · simp only [hx, hx', hy, hy']
  · rintro other a b _ _ hab ⟨rfl, rfl, rfl⟩
    constructor
    · rintro rfl
      exact (hleft _ hab).elim
    · rintro rfl
      exact (hright _ hab).elim

end Correspondence

section Alike

variable (R : Correspondence)

mutual

def Value.Alike : Value → Value → Prop
  | .null, .null => True
  | .bool a, .bool b => a = b
  | .int a, .int b => a = b
  | .float a, .float b => a = b
  | .str a, .str b => a = b
  | .list a, .list b => Value.AllAlike a b
  | .map a, .map b => Value.EntriesAlike a b
  | .object a, .object b => R .objects a.address b.address ∧ a.className = b.className
  | .callable a, .callable b => a = b
  | .handle a, .handle b => R .handles a.address b.address ∧ a.target = b.target
  | _, _ => False

def Value.AllAlike : List Value → List Value → Prop
  | [], [] => True
  | v :: vs, w :: ws => v.Alike w ∧ Value.AllAlike vs ws
  | _, _ => False

def Value.EntriesAlike : List (String × Value) → List (String × Value) → Prop
  | [], [] => True
  | (j, v) :: vs, (k, w) :: ws => j = k ∧ v.Alike w ∧ Value.EntriesAlike vs ws
  | _, _ => False

end

def Dict.Alike (a b : Dict Value) : Prop := Value.EntriesAlike R a.entries b.entries

structure CallArgs.Alike (a b : CallArgs) : Prop where
  positional : Value.AllAlike R a.positional b.positional
  named : a.named.Alike R b.named

end Alike

namespace Value

variable {R S : Correspondence}

theorem allAlike_iff {vs ws : List Value} :
    AllAlike R vs ws ↔ List.Forall₂ (Alike R) vs ws := by
  induction vs generalizing ws with
  | nil => cases ws <;> simp [AllAlike]
  | cons v vs ih =>
      cases ws with
      | nil => simp [AllAlike]
      | cons w ws => rw [AllAlike, ih, List.forall₂_cons]

mutual

theorem Alike.mono (h : R ≤ S) : ∀ {v w : Value}, v.Alike R w → v.Alike S w
  | .list _, .list _, halike => AllAlike.mono h halike
  | .map _, .map _, halike => EntriesAlike.mono h halike
  | .object _, .object _, halike => ⟨h .objects _ _ halike.1, halike.2⟩
  | .handle _, .handle _, halike => ⟨h .handles _ _ halike.1, halike.2⟩
  | .null, .null, _ => trivial
  | .bool _, .bool _, halike => halike
  | .int _, .int _, halike => halike
  | .float _, .float _, halike => halike
  | .str _, .str _, halike => halike
  | .callable _, .callable _, halike => halike

theorem AllAlike.mono (h : R ≤ S) : ∀ {vs ws : List Value}, AllAlike R vs ws → AllAlike S vs ws
  | [], [], _ => trivial
  | _ :: _, _ :: _, halike => ⟨Alike.mono h halike.1, AllAlike.mono h halike.2⟩

theorem EntriesAlike.mono (h : R ≤ S) :
    ∀ {vs ws : List (String × Value)}, EntriesAlike R vs ws → EntriesAlike S vs ws
  | [], [], _ => trivial
  | (_, _) :: _, (_, _) :: _, halike =>
      ⟨halike.1, Alike.mono h halike.2.1, EntriesAlike.mono h halike.2.2⟩

end

mutual

/-- Where every address stands for itself, values alike are the same. -/
theorem Alike.eq : ∀ {v w : Value}, v.Alike .same w → v = w
  | .list _, .list _, h => congrArg Value.list (AllAlike.eq h)
  | .map _, .map _, h => congrArg Value.map (EntriesAlike.eq h)
  | .object ⟨_, _⟩, .object ⟨_, _⟩, ⟨rfl, rfl⟩ => rfl
  | .handle ⟨_, _⟩, .handle ⟨_, _⟩, ⟨rfl, rfl⟩ => rfl
  | .null, .null, _ => rfl
  | .bool _, .bool _, h => congrArg Value.bool h
  | .int _, .int _, h => congrArg Value.int h
  | .float _, .float _, h => congrArg Value.float h
  | .str _, .str _, h => congrArg Value.str h
  | .callable _, .callable _, h => congrArg Value.callable h

theorem AllAlike.eq : ∀ {vs ws : List Value}, AllAlike .same vs ws → vs = ws
  | [], [], _ => rfl
  | _ :: _, _ :: _, h => congrArg₂ List.cons (Alike.eq h.1) (AllAlike.eq h.2)

theorem EntriesAlike.eq : ∀ {vs ws : List (String × Value)}, EntriesAlike .same vs ws → vs = ws
  | [], [], _ => rfl
  | (_, _) :: _, (_, _) :: _, h =>
      congrArg₂ List.cons (congrArg₂ Prod.mk h.1 (Alike.eq h.2.1)) (EntriesAlike.eq h.2.2)

end

mutual

theorem alike_same : ∀ v : Value, v.Alike .same v
  | .list vs => allAlike_same vs
  | .map vs => entriesAlike_same vs
  | .object _ => ⟨rfl, rfl⟩
  | .handle _ => ⟨rfl, rfl⟩
  | .null => trivial
  | .bool _ => rfl
  | .int _ => rfl
  | .float _ => rfl
  | .str _ => rfl
  | .callable _ => rfl

theorem allAlike_same : ∀ vs : List Value, AllAlike .same vs vs
  | [] => trivial
  | v :: vs => ⟨alike_same v, allAlike_same vs⟩

theorem entriesAlike_same : ∀ vs : List (String × Value), EntriesAlike .same vs vs
  | [] => trivial
  | (_, v) :: vs => ⟨rfl, alike_same v, entriesAlike_same vs⟩

end

mutual

theorem Alike.flip : ∀ {v w : Value}, v.Alike R w → w.Alike R.flip v
  | .list _, .list _, h => AllAlike.flip h
  | .map _, .map _, h => EntriesAlike.flip h
  | .object _, .object _, h => ⟨h.1, h.2.symm⟩
  | .handle _, .handle _, h => ⟨h.1, h.2.symm⟩
  | .null, .null, _ => trivial
  | .bool _, .bool _, h => Eq.symm h
  | .int _, .int _, h => Eq.symm h
  | .float _, .float _, h => Eq.symm h
  | .str _, .str _, h => Eq.symm h
  | .callable _, .callable _, h => Eq.symm h

theorem AllAlike.flip : ∀ {vs ws : List Value}, AllAlike R vs ws → AllAlike R.flip ws vs
  | [], [], _ => trivial
  | _ :: _, _ :: _, h => ⟨Alike.flip h.1, AllAlike.flip h.2⟩

theorem EntriesAlike.flip :
    ∀ {vs ws : List (String × Value)}, EntriesAlike R vs ws → EntriesAlike R.flip ws vs
  | [], [], _ => trivial
  | (_, _) :: _, (_, _) :: _, h => ⟨h.1.symm, Alike.flip h.2.1, EntriesAlike.flip h.2.2⟩

end

mutual

theorem Alike.comp : ∀ {v w u : Value}, v.Alike R w → w.Alike S u → v.Alike (R.comp S) u
  | .list _, .list _, .list _, h, h' => AllAlike.comp h h'
  | .map _, .map _, .map _, h, h' => EntriesAlike.comp h h'
  | .object _, .object o, .object _, h, h' => ⟨⟨o.address, h.1, h'.1⟩, h.2.trans h'.2⟩
  | .handle _, .handle l, .handle _, h, h' => ⟨⟨l.address, h.1, h'.1⟩, h.2.trans h'.2⟩
  | .null, .null, .null, _, _ => trivial
  | .bool _, .bool _, .bool _, h, h' => Eq.trans h h'
  | .int _, .int _, .int _, h, h' => Eq.trans h h'
  | .float _, .float _, .float _, h, h' => Eq.trans h h'
  | .str _, .str _, .str _, h, h' => Eq.trans h h'
  | .callable _, .callable _, .callable _, h, h' => Eq.trans h h'

theorem AllAlike.comp : ∀ {vs ws us : List Value},
    AllAlike R vs ws → AllAlike S ws us → AllAlike (R.comp S) vs us
  | [], [], [], _, _ => trivial
  | _ :: _, _ :: _, _ :: _, h, h' => ⟨Alike.comp h.1 h'.1, AllAlike.comp h.2 h'.2⟩

theorem EntriesAlike.comp : ∀ {vs ws us : List (String × Value)},
    EntriesAlike R vs ws → EntriesAlike S ws us → EntriesAlike (R.comp S) vs us
  | [], [], [], _, _ => trivial
  | (_, _) :: _, (_, _) :: _, (_, _) :: _, h, h' =>
      ⟨h.1.trans h'.1, Alike.comp h.2.1 h'.2.1, EntriesAlike.comp h.2.2 h'.2.2⟩

end

/-- A value that stands for another refers only to what stands for something. -/
theorem Alike.domain (hbijective : R.Bijective) {v w : Value} (h : v.Alike R w) :
    v.Alike R.domain v :=
  (h.comp h.flip).mono hbijective.comp_flip

theorem EntriesAlike.putSorted {key : String} {v w : Value} (hvalue : v.Alike R w) :
    ∀ {vs ws : Entries Value}, EntriesAlike R vs ws →
      EntriesAlike R (vs.putSorted key v) (ws.putSorted key w)
  | [], [], _ => ⟨rfl, hvalue, trivial⟩
  | (name, old) :: vs, (_, old') :: ws, ⟨rfl, hold, hrest⟩ => by
      rw [Entries.putSorted, Entries.putSorted]
      by_cases hsame : name = key
      · rw [if_pos hsame, if_pos hsame]
        exact ⟨rfl, hvalue, hrest⟩
      · rw [if_neg hsame, if_neg hsame]
        split
        · exact ⟨rfl, hvalue, rfl, hold, hrest⟩
        · exact ⟨rfl, hold, EntriesAlike.putSorted hvalue hrest⟩

end Value

namespace Dict

variable {R S : Correspondence} {a b : Dict Value}

theorem Alike.mono (h : R ≤ S) (halike : a.Alike R b) : a.Alike S b :=
  Value.EntriesAlike.mono h halike

theorem Alike.flip (halike : a.Alike R b) : b.Alike R.flip a := Value.EntriesAlike.flip halike

theorem Alike.comp {d : Dict Value} (halike : a.Alike R b) (halike' : b.Alike S d) :
    a.Alike (R.comp S) d := Value.EntriesAlike.comp halike halike'

theorem alike_empty : (∅ : Dict Value).Alike R ∅ := trivial

theorem Alike.insert (halike : a.Alike R b) (key : String) {v w : Value} (hvalue : v.Alike R w) :
    (a.insert key v).Alike R (b.insert key w) :=
  Value.EntriesAlike.putSorted hvalue halike

theorem Alike.eq (halike : a.Alike .same b) : a = b := by
  obtain ⟨entries, hascending⟩ := a
  obtain ⟨others, hascending'⟩ := b
  obtain rfl : entries = others := Value.EntriesAlike.eq halike
  rfl

end Dict

namespace CallArgs

variable {R S : Correspondence} {a b : CallArgs}

theorem Alike.mono (h : R ≤ S) (halike : a.Alike R b) : a.Alike S b :=
  ⟨.mono h halike.positional, .mono h halike.named⟩

theorem Alike.eq (halike : a.Alike .same b) : a = b := by
  obtain ⟨positional, named⟩ := a
  obtain ⟨others, entries⟩ := b
  obtain rfl : positional = others := halike.positional.eq
  obtain rfl : named = entries := halike.named.eq
  rfl

theorem alike_sole {v w : Value} (h : v.Alike R w) : (ofList [v]).Alike R (ofList [w]) :=
  ⟨⟨h, trivial⟩, Dict.alike_empty⟩

theorem Alike.isEmpty (halike : a.Alike R b) : a.isEmpty = b.isEmpty := by
  obtain ⟨positional, ⟨named, _⟩⟩ := a
  obtain ⟨others, ⟨entries, _⟩⟩ := b
  obtain ⟨hpositional, hnamed⟩ := halike
  have hall : positional.isEmpty = others.isEmpty := by
    cases positional <;> cases others <;> first | rfl | exact hpositional.elim
  have hentries : named.isEmpty = entries.isEmpty := by
    cases named <;> cases entries <;> first | rfl | exact hnamed.elim
  rw [isEmpty, isEmpty, hall, Dict.isEmpty, Dict.isEmpty, hentries]

end CallArgs
end Wiring
