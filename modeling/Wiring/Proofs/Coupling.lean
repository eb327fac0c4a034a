import Wiring.Proofs.Accords

/-!
# Two runs side by side

Two runs are coupled if from related worlds they come to related worlds with related results. How
worlds and values are related is kept in an index, which moves on as the runs do. Making a service is
put together from calls, from user code and from literals; where all of these are coupled, so is
making the service.
-/

namespace Wiring

/-- How two runs are compared. -/
structure Coupling where
  Index : Type
  Leads : Index → Index → Prop
  refl : ∀ i, Leads i i
  trans : ∀ {i j k}, Leads i j → Leads j k → Leads i k
  refs : Index → Correspondence
  refs_mono : ∀ {i j}, Leads i j → refs i ≤ refs j
  Worlds : Index → World → World → Prop
  /-- Whether the second run has to fail where the first one fails. -/
  strict : Prop
  /-- Whether both runs may be left unfinished. -/
  unfinished : Prop

namespace Coupling

variable (L : Coupling) {α β α' β' : Type}

/-- The results of two runs, and the worlds that they leave. -/
inductive Ends (k : L.Index) (V : L.Index → α → α' → Prop) :
    Except Halt α × World → Except Halt α' × World → Prop
  | ok {j : L.Index} {a : α} {a' : α'} {later later' : World} (hleads : L.Leads k j)
      (hworlds : L.Worlds j later later') (hvalue : V j a a') : Ends k V (.ok a, later) (.ok a', later')
  | error {j : L.Index} {halt : Halt} {later later' : World} (hleads : L.Leads k j)
      (hworlds : L.Worlds j later later') (hhalt : halt = .unfinished → L.unfinished) :
      Ends k V (.error halt, later) (.error halt, later')
  | waived {halt : Halt} {later : World} (other : Except Halt α' × World) (hlax : ¬ L.strict) :
      Ends k V (.error halt, later) other

def Couples (k : L.Index) (V : L.Index → α → α' → Prop) (run : Run α) (other : Run α') : Prop :=
  ∀ world world', L.Worlds k world world' → L.Ends k V (run world) (other world')

def Same (k : L.Index) (v w : Value) : Prop := v.Alike (L.refs k) w

def SameArgs (k : L.Index) (a b : CallArgs) : Prop := a.Alike (L.refs k) b

variable {L} {i j k : L.Index}

theorem Same.mono (hleads : L.Leads i j) {v w : Value} (h : L.Same i v w) : L.Same j v w :=
  Value.Alike.mono (L.refs_mono hleads) h

theorem SameArgs.mono (hleads : L.Leads i j) {a b : CallArgs} (h : L.SameArgs i a b) :
    L.SameArgs j a b := CallArgs.Alike.mono (L.refs_mono hleads) h

/-! ### Rules -/

section Rules

variable {V : L.Index → α → α' → Prop} {W : L.Index → β → β' → Prop}

theorem Ends.since (hleads : L.Leads i j) {answer : Except Halt α × World}
    {other : Except Halt α' × World} (h : L.Ends j V answer other) : L.Ends i V answer other := by
  cases h with
  | ok hlater hworlds hvalue => exact .ok (L.trans hleads hlater) hworlds hvalue
  | error hlater hworlds hhalt => exact .error (L.trans hleads hlater) hworlds hhalt
  | waived _ hlax => exact .waived _ hlax

theorem Ends.imp {U : L.Index → α → α' → Prop} {answer : Except Halt α × World}
    {other : Except Halt α' × World} (h : L.Ends k U answer other)
    (himp : ∀ j a a', L.Leads k j → U j a a' → V j a a') : L.Ends k V answer other := by
  cases h with
  | ok hleads hworlds hvalue => exact .ok hleads hworlds (himp _ _ _ hleads hvalue)
  | error hleads hworlds hhalt => exact .error hleads hworlds hhalt
  | waived _ hlax => exact .waived _ hlax

/-- Where nothing is waived the worlds are related afterwards, whatever the results. -/
theorem Ends.worlds (hstrict : L.strict) {answer : Except Halt α × World}
    {other : Except Halt α' × World} (h : L.Ends k V answer other) :
    ∃ j, L.Leads k j ∧ L.Worlds j answer.2 other.2 := by
  cases h with
  | ok hleads hworlds _ => exact ⟨_, hleads, hworlds⟩
  | error hleads hworlds _ => exact ⟨_, hleads, hworlds⟩
  | waived _ hlax => exact absurd hstrict hlax

theorem Couples.imp {U : L.Index → α → α' → Prop} {run : Run α} {other : Run α'}
    (h : L.Couples k U run other) (himp : ∀ j a a', L.Leads k j → U j a a' → V j a a') :
    L.Couples k V run other :=
  fun world world' hworlds => (h world world' hworlds).imp himp

theorem Couples.pure {a : α} {a' : α'} (h : V k a a') :
    L.Couples k V (Pure.pure a) (Pure.pure a') :=
  fun _ _ hworlds => .ok (L.refl k) hworlds h

theorem Couples.fail (error : Error) :
    L.Couples k V (Run.fail error : Run α) (Run.fail error : Run α') :=
  fun _ _ hworlds => .error (L.refl k) hworlds fun hhalt => by cases hhalt

theorem Couples.bind {run : Run α} {other : Run α'} {next : α → Run β} {next' : α' → Run β'}
    (h : L.Couples k V run other)
    (hnext : ∀ j a a', L.Leads k j → V j a a' → L.Couples j W (next a) (next' a')) :
    L.Couples k W (run >>= next) (other >>= next') := by
  intro world world' hworlds
  have hends := h world world' hworlds
  rw [Run.bind_apply, Run.bind_apply]
  generalize run world = answer, other world' = answer' at hends
  cases hends with
  | ok hleads hlater hvalue => exact (hnext _ _ _ hleads hvalue _ _ hlater).since hleads
  | error hleads hlater hhalt => exact .error hleads hlater hhalt
  | waived _ hlax => exact .waived _ hlax

theorem Couples.mapM {visit visit' : α → Run β} {items : List α}
    {U : L.Index → β → β → Prop} (hmono : ∀ i j b b', L.Leads i j → U i b b' → U j b b')
    (h : ∀ item ∈ items, ∀ j, L.Leads k j → L.Couples j U (visit item) (visit' item))
    (hleads : L.Leads k j) :
    L.Couples j (fun i => List.Forall₂ (U i)) (items.mapM visit) (items.mapM visit') := by
  induction items generalizing j with
  | nil => exact .pure .nil
  | cons item rest ih =>
      rw [List.mapM_cons, List.mapM_cons]
      refine (h item List.mem_cons_self j hleads).bind fun i first first' hfirst hsame => ?_
      have hrest := ih (fun other hother => h other (List.mem_cons_of_mem _ hother))
        (L.trans hleads hfirst)
      refine hrest.bind fun m others others' hothers hall => .pure (.cons ?_ hall)
      exact hmono _ _ _ _ hothers hsame

end Rules

end Coupling

/-! ### Going through a definition -/

namespace Reading

variable (reading : Reading)

/-- Meeting the demand follows the name. -/
def Follows : Demand → String → Prop
  | .reference target, name => target = name ∧ reading.lazyTarget? target = none
  | .callee target, name => target = name
  | .parameter _, _ => False
  | .construct .., _ => False

/-- Every name that the demands have followed is met. -/
def AllMet (Met : String → Prop) (demands : List Demand) : Prop :=
  ∀ demand ∈ demands, ∀ name, reading.Follows demand name → Met name

variable {reading} {Met : String → Prop} {demands others : List Demand}

theorem allMet_nil : reading.AllMet Met [] := fun _ hdemand => by cases hdemand

theorem AllMet.append (h : reading.AllMet Met demands) (h' : reading.AllMet Met others) :
    reading.AllMet Met (demands ++ others) := by
  intro demand hdemand
  rcases List.mem_append.mp hdemand with hleft | hright
  · exact h demand hleft
  · exact h' demand hright

end Reading

namespace Coupling

variable {L : Coupling} {j k : L.Index} {recur recur' : Caller} {reading : Reading} {id : String}
  {Met : String → Prop}

/-- What definitions hand arguments to is coupled from the index on. -/
structure Supports (L : Coupling) (k : L.Index) (recur recur' : Caller) (reading : Reading) :
    Prop where
  invoke : ∀ {j f args args'}, L.Leads k j → L.SameArgs j args args' →
    L.Couples j L.Same (recur (.invoke reading.home f args)) (recur' (.invoke reading.home f args'))
  instantiate : ∀ {j id className args args'}, L.Leads k j → L.SameArgs j args args' →
    L.Couples j L.Same ((reading.catalog.instantiate id className args).run recur)
      ((reading.catalog.instantiate id className args').run recur')
  callMethod : ∀ {j id o o' method args args'}, L.Leads k j →
    L.Same j (.object o) (.object o') → L.SameArgs j args args' →
      L.Couples j L.Same ((reading.catalog.callMethod id o method args).run recur)
        ((reading.catalog.callMethod id o' method args').run recur')
  handle : ∀ {j target}, L.Leads k j →
    L.Couples j (fun i l l' => L.Same i (.handle l) (.handle l'))
      (Run.onStore (·.addHandle target (some reading.home)))
      (Run.onStore (·.addHandle target (some reading.home)))
  parameter : ∀ {name v}, reading.parameter name = .ok v → L.Same k v v

/-- What the demand follows is coupled; where it succeeds the name is met. -/
def Meets (L : Coupling) (Met : String → Prop) (k : L.Index) (recur recur' : Caller)
    (reading : Reading) (demand : Demand) : Prop :=
  ∀ name, reading.Follows demand name → ∀ j, L.Leads k j →
    L.Couples j (fun i v v' => L.Same i v v' ∧ Met name) (recur (reading.follow name))
      (recur' (reading.follow name))

/-- Beside what is known of the results, the demands were met on the way. -/
def Having (L : Coupling) (reading : Reading) (Met : String → Prop) (demands : List Demand)
    {α α' : Type} (V : L.Index → α → α' → Prop) : L.Index → α → α' → Prop :=
  fun i a a' => V i a a' ∧ reading.AllMet Met demands

section Supports

variable (supports : L.Supports k recur recur' reading)

include supports

theorem reference_couples {name : String}
    (h : L.Meets Met k recur recur' reading (.reference name)) (hleads : L.Leads k j) :
    L.Couples j (L.Having reading Met [.reference name] L.Same) (reading.reference recur name)
      (reading.reference recur' name) := by
  unfold Reading.reference
  cases hlazy : reading.lazyTarget? name with
  | some target =>
      refine (supports.handle hleads).bind fun i l l' _ hsame => .pure ⟨hsame, ?_⟩
      intro demand hdemand other hfollows
      obtain rfl := List.mem_singleton.mp hdemand
      obtain ⟨rfl, hfollowed⟩ := hfollows
      rw [hlazy] at hfollowed
      cases hfollowed
  | none =>
      refine (h name ⟨rfl, hlazy⟩ j hleads).imp fun i v v' _ ⟨hsame, hmet⟩ => ⟨hsame, ?_⟩
      intro demand hdemand other hfollows
      obtain rfl := List.mem_singleton.mp hdemand
      obtain ⟨rfl, -⟩ := hfollows
      exact hmet

theorem callService_couples {name : String} {service service' : Value} {args args' : CallArgs}
    (hleads : L.Leads k j) (hservice : L.Same j service service')
    (hargs : L.SameArgs j args args') :
    L.Couples j L.Same (Run.callService recur reading.home id name service args)
      (Run.callService recur' reading.home id name service' args') := by
  have hplain : L.Couples j L.Same
      (if args.isEmpty then pure service else Run.fail (.invalidEntity id (.notCallable name)))
      (if args'.isEmpty then pure service'
        else Run.fail (.invalidEntity id (.notCallable name))) := by
    rw [CallArgs.Alike.isEmpty hargs]
    split
    · exact .pure hservice
    · exact .fail _
  cases service with
  | callable f =>
      cases service' with
      | callable f' =>
          obtain rfl : f = f' := hservice
          exact supports.invoke hleads hargs
      | _ => exact hservice.elim
  | _ =>
      cases service' with
      | callable f' => exact hservice.elim
      | _ => exact hplain

theorem callMethod_couples {name method : String} {service service' : Value} {args args' : CallArgs}
    (hleads : L.Leads k j) (hservice : L.Same j service service')
    (hargs : L.SameArgs j args args') :
    L.Couples j L.Same (Run.callMethod recur reading.catalog id name service method args)
      (Run.callMethod recur' reading.catalog id name service' method args') := by
  cases service with
  | object o =>
      cases service' with
      | object o' => exact supports.callMethod hleads hservice hargs
      | _ => exact hservice.elim
  | _ =>
      cases service' with
      | object o' => exact hservice.elim
      | _ => exact .fail _

theorem runExtra_couples {service service' code code' : Value} (hleads : L.Leads k j)
    (hservice : L.Same j service service') (hcode : L.Same j code code') :
    L.Couples j (fun _ _ _ => True) (Run.runExtra recur reading.home service code)
      (Run.runExtra recur' reading.home service' code') := by
  cases code with
  | callable f =>
      cases code' with
      | callable f' =>
          obtain rfl : f = f' := hcode
          refine Couples.bind (supports.invoke hleads ?_) fun _ _ _ _ _ => .pure trivial
          exact CallArgs.alike_sole hservice
      | _ => exact hcode.elim
  | _ =>
      cases code' with
      | callable f' => exact hcode.elim
      | _ => exact .pure trivial

theorem callee_couples (target : Callee) {args args' : CallArgs} (positional : Nat)
    (h : ∀ demand ∈ target.demands positional, L.Meets Met k recur recur' reading demand)
    (hleads : L.Leads k j) (hargs : L.SameArgs j args args') :
    L.Couples j (L.Having reading Met (target.demands positional) L.Same)
      (reading.callee recur id target args) (reading.callee recur' id target args') := by
  have hcalled : ∀ name, Met name → reading.AllMet Met [.callee name] := by
    intro name hmet demand hdemand other hfollows
    obtain rfl := List.mem_singleton.mp hdemand
    obtain rfl : name = other := hfollows
    exact hmet
  cases target with
  | invocable f =>
      exact (supports.invoke hleads hargs).imp fun _ _ _ _ hsame => ⟨hsame, Reading.allMet_nil⟩
  | construct className =>
      refine (supports.instantiate hleads hargs).imp fun _ _ _ _ hsame => ⟨hsame, ?_⟩
      intro demand hdemand other hfollows
      obtain rfl := List.mem_singleton.mp hdemand
      exact hfollows.elim
  | service name =>
      have hname : L.Meets Met k recur recur' reading (.callee name) := h _ List.mem_cons_self
      refine (hname name rfl j hleads).bind fun i service service' hlater ⟨hservice, hmet⟩ => ?_
      refine (callService_couples supports (L.trans hleads hlater) hservice
        (hargs.mono hlater)).imp fun _ _ _ _ hsame => ⟨hsame, hcalled name hmet⟩
  | method name method =>
      have hname : L.Meets Met k recur recur' reading (.callee name) := h _ List.mem_cons_self
      refine (hname name rfl j hleads).bind fun i service service' hlater ⟨hservice, hmet⟩ => ?_
      refine (callMethod_couples supports (L.trans hleads hlater) hservice
        (hargs.mono hlater)).imp fun _ _ _ _ hsame => ⟨hsame, hcalled name hmet⟩

end Supports

/-- From `k` on the runs are coupled, given what their demands follow; and then the demands were met. -/
def accord (L : Coupling) (Met : String → Prop) (k : L.Index) (recur recur' : Caller)
    (reading : Reading) : Accord where
  Index := L.Index
  Leads := L.Leads
  refl := L.refl
  trans := L.trans
  refs := L.refs
  refs_mono := L.refs_mono
  rigid := False
  refs_rigid := False.elim
  Holds j demands V run other :=
    (∀ demand ∈ demands, L.Meets Met k recur recur' reading demand) → L.Leads k j →
      L.Couples j (L.Having reading Met demands V) run other
  pure _ hvalue _ _ := .pure ⟨hvalue, Reading.allMet_nil⟩
  bind := by
    intro α β j demands others V W run other next next' h hnext hmeets hleads
    refine Couples.bind (h (fun demand hdemand => hmeets demand ?_) hleads)
      fun i a a' hlater ⟨hvalue, hmet⟩ => ?_
    · exact List.mem_append_left _ hdemand
    refine (hnext i a a' hlater hvalue (fun demand hdemand => hmeets demand ?_)
      (L.trans hleads hlater)).imp fun _ _ _ _ ⟨hresult, hmets⟩ => ⟨hresult, hmet.append hmets⟩
    exact List.mem_append_right _ hdemand

theorem Same.states {v : Value} (h : L.Same k v v) :
    (L.accord Met k recur recur' reading).States v :=
  fun _ _ hleads => .pure ⟨h.mono hleads, Reading.allMet_nil⟩

theorem decorate_couples {c : ContainerRef} {decorators : List Decorator}
    (h : ∀ decorator ∈ decorators, ∀ j v v', L.Leads k j → L.Same j v v' →
      L.Couples j L.Same ((decorator.apply c v).run recur) ((decorator.apply c v').run recur'))
    {service service' : Value} (hleads : L.Leads k j) (hservice : L.Same j service service') :
    L.Couples j L.Same (Run.decorate recur c decorators service)
      (Run.decorate recur' c decorators service') := by
  unfold Run.decorate
  induction decorators generalizing j service service' with
  | nil => exact .pure hservice
  | cons decorator rest ih =>
      rw [List.foldlM_cons, List.foldlM_cons]
      refine (h decorator List.mem_cons_self j _ _ hleads hservice).bind
        fun i v v' hlater hsame => ?_
      exact ih (fun other hother => h other (List.mem_cons_of_mem _ hother))
        (L.trans hleads hlater) hsame

theorem bindMember_couples {demands : List Demand} {service service' : Value} {name : String}
    {run run' : Run Value} (hrun : L.Couples j (L.Having reading Met demands L.Same) run run')
    (hservice : L.Same j service service')
    (hmember : ∀ o o', service = .object o → service' = .object o' → ∀ i v v', L.Leads j i →
      L.Same i v v' → L.Couples i (fun _ _ _ => True)
        ((reading.catalog.applyMember o name v).run recur)
        ((reading.catalog.applyMember o' name v').run recur')) :
    L.Couples j (L.Having reading Met demands fun _ _ _ => True)
      (Run.bindMember recur reading.catalog id service name run)
      (Run.bindMember recur' reading.catalog id service' name run') := by
  cases service with
  | object o =>
      cases service' with
      | object o' =>
          refine hrun.bind fun i v v' hlater ⟨hsame, hmet⟩ => ?_
          exact (hmember o o' rfl rfl i v v' hlater hsame).imp fun _ _ _ _ _ => ⟨trivial, hmet⟩
      | _ => exact hservice.elim
  | _ =>
      cases service' with
      | object o' => exact hservice.elim
      | _ => exact .fail _

section Create

variable (supports : L.Supports k recur recur' reading)

include supports

theorem Supports.pieces :
    (L.accord Met k recur recur' reading).Pieces recur recur' reading reading id where
  candidates := rfl
  reference _ hmeets hleads := reference_couples supports (hmeets _ List.mem_cons_self) hleads
  parameter name _ hleads := by
    have hmet : reading.AllMet Met [.parameter name] := by
      intro demand hdemand other hfollows
      obtain rfl := List.mem_singleton.mp hdemand
      exact hfollows.elim
    cases hfound : reading.parameter name with
    | error error => exact .fail error
    | ok v => exact .pure ⟨(supports.parameter hfound).mono hleads, hmet⟩
  callee target _ _ hargs hmeets hleads := callee_couples supports target _ hmeets hleads hargs

/-- Whatever is known of the callee's results is known of the whole application's. -/
theorem application_couples {V : L.Index → Value → Value → Prop} (args : Arguments)
    (target : Callee)
    (hdemands : ∀ demand ∈ args.demands reading.candidates ++
      target.demands args.positional.length, L.Meets Met k recur recur' reading demand)
    (hliterals : ∀ v ∈ args.literals, L.Same k v v)
    (hcallee : ∀ j values values', L.Leads k j → L.SameArgs j values values' →
      L.Couples j (L.Having reading Met (target.demands args.positional.length) V)
        (reading.callee recur id target values) (reading.callee recur' id target values')) :
    L.Couples k (L.Having reading Met
        (args.demands reading.candidates ++ target.demands args.positional.length) V)
      (reading.application recur id args target)
      (reading.application recur' id args target) :=
  (Accord.application_holds supports.pieces args target (fun v hv => (hliterals v hv).states)
    fun j values values' hvalues _ _ hleads => hcallee j values values' hleads hvalues)
      hdemands (L.refl k)

theorem entity_couples (definition : Definition)
    (hdemands : ∀ demand ∈ definition.entityDemands reading.candidates,
      L.Meets Met k recur recur' reading demand)
    (hliterals : ∀ v ∈ definition.entityLiterals, L.Same k v v) :
    L.Couples k (L.Having reading Met (definition.entityDemands reading.candidates) L.Same)
      (reading.entity recur id definition) (reading.entity recur' id definition) :=
  Accord.entity_holds supports.pieces definition (fun v hv => (hliterals v hv).states) hdemands
    (L.refl k)

/-- **Services** come out alike if what their definition demands does. More may be known of what the
entity gives; members are bound to that. -/
theorem create_couples {Made : L.Index → Value → Value → Prop} (definition : Definition)
    (hentity : L.Couples k
      (L.Having reading Met (definition.entityDemands reading.candidates) Made)
      (reading.entity recur id definition) (reading.entity recur' id definition))
    (hmade : ∀ j v v', Made j v v' → L.Same j v v')
    (hdemands : ∀ demand ∈ definition.demands reading.candidates,
      L.Meets Met k recur recur' reading demand)
    (hliterals : ∀ v ∈ definition.bindings.flatMap Binding.literals, L.Same k v v)
    (hmember : ∀ name value, .member name value ∈ definition.bindings → ∀ j o o',
      Made j (.object o) (.object o') → ∀ i v v', L.Leads j i → L.Same i v v' →
        L.Couples i (fun _ _ _ => True) ((reading.catalog.applyMember o name v).run recur)
          ((reading.catalog.applyMember o' name v').run recur'))
    (hdecorators : ∀ decorator ∈ definition.decorators, ∀ j v v', L.Leads k j → L.Same j v v' →
      L.Couples j L.Same ((decorator.apply reading.home v).run recur)
        ((decorator.apply reading.home v').run recur')) :
    L.Couples k (L.Having reading Met (definition.demands reading.candidates) L.Same)
      (reading.create recur id definition) (reading.create recur' id definition) := by
  have hcompletes : (L.accord Met k recur recur' reading).Completes recur recur' reading reading id
      definition Made := {
    made := hmade _ _ _
    member := by
      intro name value hbinding j i service service' demands run run' hservice hleads hrun hmeets
        hlater
      refine bindMember_couples (hrun hmeets hlater) ((hmade j _ _ hservice).mono hleads) ?_
      rintro o o' rfl rfl m v v' hlast hvalue
      exact hmember name value hbinding j o o' hservice m v v' (L.trans hleads hlast) hvalue
    extra := fun hservice hcode _ hleads =>
      (runExtra_couples supports hleads hservice hcode).imp
        fun _ _ _ _ _ => ⟨trivial, Reading.allMet_nil⟩
    decorate := fun hservice _ hleads =>
      (decorate_couples hdecorators hleads hservice).imp
        fun _ _ _ _ hsame => ⟨hsame, Reading.allMet_nil⟩ }
  exact Accord.create_holds supports.pieces hcompletes (fun _ _ => hentity)
    (fun v hv => (hliterals v hv).states) hdemands (L.refl k)

end Create

end Coupling
end Wiring
