import Wiring.Proofs.Correspondence
import Wiring.Proofs.Demands
import Wiring.Proofs.Reading

/-!
# What making a service carries along

Whatever is to be shown of making a service, a definition is gone through in one way: arguments one
after the other, then what they are handed to, then what is bound. An accord is a relation between
two runs that goes on from what comes first to what comes next. It is told which demands are met on
the way, and how results are related is kept in an index, which moves on as the runs do. An accord
that holds of the pieces of a definition holds of making its service.

Where the two runs give the same there is nothing to keep, and only what they can give counts: such a
relation is a concord.
-/

namespace Wiring

/-- A relation between two runs that start at an index, meet demands, and end in related results. -/
structure Accord where
  Index : Type
  Leads : Index → Index → Prop
  refl : ∀ i, Leads i i
  trans : ∀ {i j k}, Leads i j → Leads j k → Leads i k
  refs : Index → Correspondence
  refs_mono : ∀ {i j}, Leads i j → refs i ≤ refs j
  /-- Whether results that are related have to be the same. -/
  rigid : Prop
  refs_rigid : rigid → ∀ i, refs i ≤ .same
  Holds : {α : Type} → Index → List Demand → (Index → α → α → Prop) → Run α → Run α → Prop
  pure : ∀ {α : Type} {k : Index} {V : Index → α → α → Prop} {a a' : α},
    (rigid → a = a') → V k a a' → Holds k [] V (pure a) (pure a')
  /-- What comes next goes on from where it is. -/
  bind : ∀ {α β : Type} {k : Index} {demands others : List Demand} {V : Index → α → α → Prop}
    {W : Index → β → β → Prop} {run other : Run α} {next next' : α → Run β},
    Holds k demands V run other →
    (∀ j a a', Leads k j → V j a a' → Holds j others W (next a) (next' a')) →
      Holds k (demands ++ others) W (run >>= next) (other >>= next')

namespace Accord

variable (A : Accord) {α β : Type}

def Same (k : A.Index) (v w : Value) : Prop := v.Alike (A.refs k) w

def AllSame (k : A.Index) (vs ws : List Value) : Prop := Value.AllAlike (A.refs k) vs ws

def SameDict (k : A.Index) (a b : Dict Value) : Prop := a.Alike (A.refs k) b

def SameArgs (k : A.Index) (a b : CallArgs) : Prop := a.Alike (A.refs k) b

/-- Literals come out as they are written. -/
def States (v : Value) : Prop := ∀ k, A.Holds k [] A.Same (Pure.pure v) (Pure.pure v)

variable {A} {j k : A.Index}

theorem Same.mono (hleads : A.Leads j k) {v w : Value} (h : A.Same j v w) : A.Same k v w :=
  Value.Alike.mono (A.refs_mono hleads) h

theorem AllSame.mono (hleads : A.Leads j k) {vs ws : List Value} (h : A.AllSame j vs ws) :
    A.AllSame k vs ws := Value.AllAlike.mono (A.refs_mono hleads) h

theorem SameDict.mono (hleads : A.Leads j k) {a b : Dict Value} (h : A.SameDict j a b) :
    A.SameDict k a b := Dict.Alike.mono (A.refs_mono hleads) h

theorem Same.eq (h : A.rigid) {v w : Value} (hsame : A.Same k v w) : v = w :=
  (Value.Alike.mono (A.refs_rigid h k) hsame).eq

theorem AllSame.eq (h : A.rigid) {vs ws : List Value} (hsame : A.AllSame k vs ws) : vs = ws :=
  (Value.AllAlike.mono (A.refs_rigid h k) hsame).eq

theorem SameDict.eq (h : A.rigid) {a b : Dict Value} (hsame : A.SameDict k a b) : a = b :=
  (Dict.Alike.mono (A.refs_rigid h k) hsame).eq

section Rules

variable {demands : List Demand} {V : A.Index → α → α → Prop} {W : A.Index → β → β → Prop}
  {run other : Run α}

/-- What comes last meets no further demand. -/
theorem finish {next next' : α → Run β} (h : A.Holds k demands V run other)
    (hnext : ∀ j a a', A.Leads k j → V j a a' → A.Holds j [] W (next a) (next' a')) :
    A.Holds k demands W (run >>= next) (other >>= next') := by
  have hbind := A.bind h hnext
  rwa [List.append_nil] at hbind

end Rules

end Accord

/-! ### Literals -/

mutual

/-- The values that an argument states. -/
def Argument.literals : Argument → List Value
  | .value v => [v]
  | .statement s => s.literals
  | .list items => Argument.literalsAll items
  | .reference _ | .parameter _ | .collection _ => []

def Statement.literals : Statement → List Value
  | .mk _ (.mk positional named) =>
      Argument.literalsAll positional ++ Argument.literalsNamed named

def Argument.literalsAll : List Argument → List Value
  | [] => []
  | arg :: rest => arg.literals ++ Argument.literalsAll rest

def Argument.literalsNamed : List (String × Argument) → List Value
  | [] => []
  | (_, arg) :: rest => arg.literals ++ Argument.literalsNamed rest

end

def Arguments.literals (args : Arguments) : List Value :=
  Argument.literalsAll args.positional ++ Argument.literalsNamed args.named

def Binding.literals : Binding → List Value
  | .member _ value => value.literals
  | .extra code => code.literals

namespace Definition

def entityLiterals (definition : Definition) : List Value :=
  match definition.entity with
  | .value v => [v]
  | _ => definition.application.1.literals

def literals (definition : Definition) : List Value :=
  definition.entityLiterals ++ definition.bindings.flatMap Binding.literals

end Definition

/-! ### Going through a definition -/

namespace Accord

variable {A : Accord} {k : A.Index} {recur recur' : Caller} {reading reading' : Reading} {id : String}

/-- The accord holds of what the arguments of definitions are made of, and of what they are handed
to. -/
structure Pieces (A : Accord) (recur recur' : Caller) (reading reading' : Reading) (id : String) :
    Prop where
  candidates : reading.candidates = reading'.candidates
  reference : ∀ {k : A.Index} (name : String), A.Holds k [.reference name] A.Same
    (reading.reference recur name) (reading'.reference recur' name)
  parameter : ∀ {k : A.Index} (name : String), A.Holds k [.parameter name] A.Same
    (Run.ofExcept (reading.parameter name)) (Run.ofExcept (reading'.parameter name))
  callee : ∀ {k : A.Index} (target : Callee) {args args' : CallArgs}, A.SameArgs k args args' →
    A.Holds k (target.demands args'.positional.length) A.Same
      (reading.callee recur id target args) (reading'.callee recur' id target args')

section Pieces

variable (pieces : A.Pieces recur recur' reading reading' id)

include pieces

theorem references_hold (names : List String) {k : A.Index} :
    A.Holds k (names.map .reference) A.AllSame (names.mapM (reading.reference recur))
      (names.mapM (reading'.reference recur')) := by
  induction names generalizing k with
  | nil => exact A.pure (fun _ => rfl) trivial
  | cons name rest ih =>
      rw [List.mapM_cons, List.mapM_cons]
      change A.Holds k ([.reference name] ++ rest.map .reference) _ _ _
      refine A.bind (pieces.reference name) fun i first first' _ hfirst => ?_
      refine finish ih fun j others others' hleads hothers => ?_
      refine A.pure (fun h => ?_) ⟨hfirst.mono hleads, hothers⟩
      rw [hfirst.eq h, hothers.eq h]

end Pieces

mutual

/-- **Arguments.** An accord of what they demand is one of what they evaluate to. -/
theorem argument_holds (pieces : A.Pieces recur recur' reading reading' id) :
    ∀ (arg : Argument) {k : A.Index}, (∀ v ∈ arg.literals, A.States v) →
      A.Holds k (arg.demands reading'.candidates) A.Same (reading.argument recur id arg)
        (reading'.argument recur' id arg)
  | .value v, k, hliterals => by
      rw [Argument.demands, Reading.argument, Reading.argument]
      exact hliterals v (by simp [Argument.literals]) k
  | .reference target, _, _ => by
      rw [Argument.demands, Reading.argument, Reading.argument]
      exact pieces.reference target
  | .parameter name, _, _ => by
      rw [Argument.demands, Reading.argument, Reading.argument]
      exact pieces.parameter name
  | .collection typeName, _, _ => by
      rw [Argument.demands, Reading.argument, Reading.argument, pieces.candidates]
      refine finish (references_hold pieces _) fun _ _ _ _ hsame => ?_
      exact A.pure (fun h => congrArg Value.list (hsame.eq h)) hsame
  | .statement s, _, hliterals => by
      rw [Argument.literals] at hliterals
      rw [Argument.demands, Reading.argument, Reading.argument]
      exact statement_holds pieces s hliterals
  | .list items, _, hliterals => by
      rw [Argument.literals] at hliterals
      rw [Argument.demands, Reading.argument, Reading.argument]
      refine finish (arguments_hold pieces items hliterals) fun _ _ _ _ ⟨hsame, _⟩ => ?_
      exact A.pure (fun h => congrArg Value.list (hsame.eq h)) hsame

theorem statement_holds (pieces : A.Pieces recur recur' reading reading' id) :
    ∀ (s : Statement) {k : A.Index}, (∀ v ∈ s.literals, A.States v) →
      A.Holds k (s.demands reading'.candidates) A.Same (reading.statement recur id s)
        (reading'.statement recur' id s)
  | .mk target (.mk positional named), _, hliterals => by
      rw [Statement.literals] at hliterals
      rw [Statement.demands, Reading.statement, Reading.statement, List.append_assoc]
      refine A.bind (arguments_hold pieces positional fun v hv => hliterals v ?_)
        fun i values values' _ ⟨hvalues, hlength⟩ => ?_
      · exact List.mem_append_left _ hv
      refine A.bind (namedArguments_hold pieces named Dict.alike_empty fun v hv => hliterals v ?_)
        fun j entries entries' hleads hentries => ?_
      · exact List.mem_append_right _ hv
      have hargs : A.SameArgs j ⟨values, entries⟩ ⟨values', entries'⟩ :=
        ⟨hvalues.mono hleads, hentries⟩
      -- The demand of a class counts the arguments as written; as many values have come of them.
      rw [← hlength]
      exact pieces.callee target hargs

theorem arguments_hold (pieces : A.Pieces recur recur' reading reading' id) :
    ∀ (args : List Argument) {k : A.Index}, (∀ v ∈ Argument.literalsAll args, A.States v) →
      A.Holds k (Argument.demandsAll reading'.candidates args)
        (fun j vs ws => A.AllSame j vs ws ∧ ws.length = args.length)
        (reading.arguments recur id args) (reading'.arguments recur' id args)
  | [], _, _ => A.pure (fun _ => rfl) ⟨trivial, rfl⟩
  | arg :: rest, _, hliterals => by
      rw [Argument.literalsAll] at hliterals
      rw [Argument.demandsAll, Reading.arguments, Reading.arguments]
      refine A.bind (argument_holds pieces arg fun v hv => hliterals v ?_)
        fun i first first' _ hfirst => ?_
      · exact List.mem_append_left _ hv
      refine finish (arguments_hold pieces rest fun v hv => hliterals v ?_)
        fun j others others' hleads ⟨hothers, hlength⟩ => ?_
      · exact List.mem_append_right _ hv
      refine A.pure (fun h => ?_) ⟨⟨hfirst.mono hleads, hothers⟩, congrArg Nat.succ hlength⟩
      rw [hfirst.eq h, hothers.eq h]

theorem namedArguments_hold (pieces : A.Pieces recur recur' reading reading' id) :
    ∀ (args : List (String × Argument)) {k : A.Index} {values values' : Dict Value},
      A.SameDict k values values' → (∀ v ∈ Argument.literalsNamed args, A.States v) →
        A.Holds k (Argument.demandsNamed reading'.candidates args) A.SameDict
          (reading.namedArguments recur id args values)
          (reading'.namedArguments recur' id args values')
  | [], _, _, _, hvalues, _ => A.pure hvalues.eq hvalues
  | (name, arg) :: rest, _, values, values', hvalues, hliterals => by
      rw [Argument.literalsNamed] at hliterals
      rw [Argument.demandsNamed, Reading.namedArguments, Reading.namedArguments]
      refine A.bind (argument_holds pieces arg fun v hv => hliterals v ?_)
        fun i first first' hleads hfirst => ?_
      · exact List.mem_append_left _ hv
      refine namedArguments_hold pieces rest ?_ fun v hv => hliterals v ?_
      · exact Dict.Alike.insert (hvalues.mono hleads) name hfirst
      · exact List.mem_append_right _ hv

end

section Pieces

variable (pieces : A.Pieces recur recur' reading reading' id)

include pieces

/-- Whatever is known of the callee's results is known of the whole application's. -/
theorem application_holds {V : A.Index → Value → Value → Prop} (args : Arguments) (target : Callee)
    (hliterals : ∀ v ∈ args.literals, A.States v)
    (hcallee : ∀ j values values', A.SameArgs j values values' →
      values'.positional.length = args.positional.length →
        A.Holds j (target.demands args.positional.length) V (reading.callee recur id target values)
          (reading'.callee recur' id target values')) :
    A.Holds k (args.demands reading'.candidates ++ target.demands args.positional.length) V
      (reading.application recur id args target) (reading'.application recur' id args target) := by
  have hall : A.Holds k (args.demands reading'.candidates)
      (fun j values values' => A.SameArgs j values values' ∧
        values'.positional.length = args.positional.length)
      (reading.allArguments recur id args) (reading'.allArguments recur' id args) := by
    refine A.bind (arguments_hold pieces args.positional fun v hv => hliterals v ?_)
      fun i values values' _ ⟨hvalues, hlength⟩ => ?_
    · exact List.mem_append_left _ hv
    refine finish (namedArguments_hold pieces args.named Dict.alike_empty fun v hv => hliterals v ?_)
      fun j entries entries' hleads hentries => ?_
    · exact List.mem_append_right _ hv
    refine A.pure (fun h => ?_) ⟨⟨hvalues.mono hleads, hentries⟩, hlength⟩
    rw [hvalues.eq h, hentries.eq h]
  exact A.bind hall fun j values values' _ ⟨hvalues, hlength⟩ =>
    hcallee j values values' hvalues hlength

theorem entity_holds (definition : Definition)
    (hliterals : ∀ v ∈ definition.entityLiterals, A.States v) :
    A.Holds k (definition.entityDemands reading'.candidates) A.Same
      (reading.entity recur id definition) (reading'.entity recur' id definition) := by
  have happlication : ∀ (args : Arguments) (target : Callee), (∀ v ∈ args.literals, A.States v) →
      A.Holds k (args.demands reading'.candidates ++ target.demands args.positional.length) A.Same
        (reading.application recur id args target)
        (reading'.application recur' id args target) := by
    intro args target hstated
    refine application_holds pieces args target hstated fun j values values' hvalues hlength => ?_
    rw [← hlength]
    exact pieces.callee target hvalues
  unfold Definition.entityLiterals Definition.application at hliterals
  unfold Definition.entityDemands Definition.application Reading.entity
  cases hentity : definition.entity with
  | value v =>
      rw [hentity] at hliterals
      exact hliterals v List.mem_cons_self k
  | construct className =>
      rw [hentity] at hliterals
      exact happlication definition.arguments (.construct className) hliterals
  | invocable f =>
      rw [hentity] at hliterals
      exact happlication definition.arguments (.invocable f) hliterals
  | statement s =>
      rw [hentity] at hliterals
      exact happlication (s.args.merged definition.arguments) s.callee hliterals

end Pieces

/-- The accord holds of what is done with what the entity of a definition gives. -/
structure Completes (A : Accord) (recur recur' : Caller) (reading reading' : Reading) (id : String)
    (definition : Definition) (Made : A.Index → Value → Value → Prop) : Prop where
  made : ∀ {k v v'}, Made k v v' → A.Same k v v'
  member : ∀ {name value}, .member name value ∈ definition.bindings →
    ∀ {j k : A.Index} {service service' : Value} {demands : List Demand} {run run' : Run Value},
      Made j service service' → A.Leads j k → A.Holds k demands A.Same run run' →
        A.Holds k demands (fun _ _ _ => True)
          (Run.bindMember recur reading.catalog id service name run)
          (Run.bindMember recur' reading'.catalog id service' name run')
  extra : ∀ {k : A.Index} {service service' code code' : Value}, A.Same k service service' →
    A.Same k code code' → A.Holds k [] (fun _ _ _ => True)
      (Run.runExtra recur reading.home service code)
      (Run.runExtra recur' reading'.home service' code')
  decorate : ∀ {k : A.Index} {service service' : Value}, A.Same k service service' →
    A.Holds k [] A.Same (Run.decorate recur reading.home definition.decorators service)
      (Run.decorate recur' reading'.home definition.decorators service')

/-- Members are bound one after the other. -/
theorem binds_hold {bindings : List Binding} {members : String → List String}
    {visit visit' : Binding → Run PUnit}
    (h : ∀ member ∈ bindings, ∀ j, A.Leads k j →
      A.Holds j (member.demands members) (fun _ _ _ => True) (visit member) (visit' member))
    {j : A.Index} (hleads : A.Leads k j) :
    A.Holds j (bindings.flatMap (·.demands members)) (fun _ _ _ => True) (bindings.forM visit)
      (bindings.forM visit') := by
  induction bindings generalizing j with
  | nil => exact A.pure (fun _ => rfl) trivial
  | cons member rest ih =>
      rw [List.flatMap_cons]
      refine A.bind (h member List.mem_cons_self j hleads) fun i _ _ hlater _ => ?_
      exact ih (fun other hother => h other (List.mem_cons_of_mem _ hother))
        (A.trans hleads hlater)

/-- **Services.** An accord of the pieces is one of making the service. More may be known of what the
entity gives; members are bound to that. -/
theorem create_holds {definition : Definition} {Made : A.Index → Value → Value → Prop}
    (pieces : A.Pieces recur recur' reading reading' id)
    (completes : A.Completes recur recur' reading reading' id definition Made)
    (hentity : A.Holds k (definition.entityDemands reading'.candidates) Made
      (reading.entity recur id definition) (reading'.entity recur' id definition))
    (hliterals : ∀ v ∈ definition.bindings.flatMap Binding.literals, A.States v) :
    A.Holds k (definition.demands reading'.candidates) A.Same
      (reading.create recur id definition) (reading'.create recur' id definition) := by
  refine A.bind hentity fun j service service' _ hmade => ?_
  have hbinds : A.Holds j (definition.bindings.flatMap (·.demands reading'.candidates))
      (fun _ _ _ => True) (definition.bindings.forM (reading.bind recur id service))
      (definition.bindings.forM (reading'.bind recur' id service')) := by
    refine binds_hold (k := j) (fun member hmember i hleads => ?_) (A.refl j)
    have hstated : ∀ v ∈ member.literals, A.States v := fun v hv =>
      hliterals v (List.mem_flatMap_of_mem hmember hv)
    cases member with
    | member name value =>
        exact completes.member hmember hmade hleads (argument_holds pieces value hstated)
    | extra code =>
        refine finish (argument_holds pieces code hstated) fun l v v' hlater hcode => ?_
        exact completes.extra (((completes.made hmade).mono hleads).mono hlater) hcode
  exact finish hbinds fun i _ _ hleads _ => completes.decorate ((completes.made hmade).mono hleads)

end Accord

/-! ### Runs with the same results -/

/-- A relation between runs with the same results that goes on from what comes first to what comes
next, whatever the first can give. -/
structure Concord where
  /-- The demands of which enough is known. -/
  Known : Demand → Prop
  Holds : {α : Type} → List Demand → Run α → Run α → Prop
  pure : ∀ {α : Type} (a : α), Holds [] (pure a) (pure a)
  bind : ∀ {α β : Type} {demands others : List Demand} {run other : Run α} {next next' : α → Run β},
    Holds demands run other → (∀ a, other.Gives a → Holds others (next a) (next' a)) →
      Holds (demands ++ others) (run >>= next) (other >>= next')

namespace Concord

variable {T : Concord} {recur recur' : Caller} {reading reading' : Reading} {id : String}
  {definition : Definition}

/-- Results are the same, so what is known of two of them is known of what the run can give. -/
def accord (T : Concord) : Accord where
  Index := Unit
  Leads _ _ := True
  refl _ := trivial
  trans _ _ := trivial
  refs _ := .same
  refs_mono _ := le_rfl
  rigid := True
  refs_rigid _ _ := le_rfl
  Holds _ demands V run other := (∀ demand ∈ demands, T.Known demand) →
    T.Holds demands run other ∧ ∀ a, other.Gives a → V () a a
  pure := by
    intro α k V a a' hsame hvalue _
    obtain rfl := hsame trivial
    refine ⟨T.pure a, fun b hb => ?_⟩
    obtain rfl := hb.of_pure
    exact hvalue
  bind := by
    intro α β k demands others V W run other next next' h hnext hknown
    obtain ⟨hrun, hgives⟩ := h fun demand hdemand => hknown demand (List.mem_append_left _ hdemand)
    have hlater : ∀ a, other.Gives a →
        T.Holds others (next a) (next' a) ∧ ∀ b, (next' a).Gives b → W () b b := fun a ha =>
      hnext () a a trivial (hgives a ha) fun demand hdemand =>
        hknown demand (List.mem_append_right _ hdemand)
    refine ⟨T.bind hrun fun a ha => (hlater a ha).1, fun b hb => ?_⟩
    obtain ⟨a, ha, hb⟩ := hb.of_bind
    exact (hlater a ha).2 b hb

/-- The concord holds of what a definition is made of, as far as it meets demands of which enough is
known. -/
structure Pieces (T : Concord) (recur recur' : Caller) (reading reading' : Reading) (id : String)
    (definition : Definition) : Prop where
  candidates : reading.candidates = reading'.candidates
  reference : ∀ name, T.Known (.reference name) →
    T.Holds [.reference name] (reading.reference recur name) (reading'.reference recur' name)
  parameter : ∀ name, T.Known (.parameter name) → T.Holds [.parameter name]
    (Run.ofExcept (reading.parameter name)) (Run.ofExcept (reading'.parameter name))
  callee : ∀ (target : Callee) (args : CallArgs),
    (∀ demand ∈ target.demands args.positional.length, T.Known demand) →
      T.Holds (target.demands args.positional.length) (reading.callee recur id target args)
        (reading'.callee recur' id target args)
  member : ∀ (service : Value) (name : String) {demands : List Demand} {run run' : Run Value},
    T.Holds demands run run' →
      T.Holds demands (Run.bindMember recur reading.catalog id service name run)
        (Run.bindMember recur' reading'.catalog id service name run')
  extra : ∀ service code, T.Holds [] (Run.runExtra recur reading.home service code)
    (Run.runExtra recur' reading'.home service code)
  decorate : ∀ service,
    T.Holds [] (Run.decorate recur reading.home definition.decorators service)
      (Run.decorate recur' reading'.home definition.decorators service)

/-- Only what is given counts, and values are like themselves. -/
theorem holds_same {demands : List Demand} {run other : Run Value}
    (h : (∀ demand ∈ demands, T.Known demand) → T.Holds demands run other) :
    T.accord.Holds () demands T.accord.Same run other :=
  fun hknown => ⟨h hknown, fun v _ => Value.alike_same v⟩

/-- **Services.** A concord of the pieces is one of making the service. -/
theorem create_holds (pieces : T.Pieces recur recur' reading reading' id definition)
    (hknown : ∀ demand ∈ definition.demands reading'.candidates, T.Known demand) :
    T.Holds (definition.demands reading'.candidates) (reading.create recur id definition)
      (reading'.create recur' id definition) := by
  have hstates : ∀ v, T.accord.States v := fun v _ => holds_same fun _ => T.pure v
  have hpieces : T.accord.Pieces recur recur' reading reading' id := {
    candidates := pieces.candidates
    reference := fun name => holds_same fun hknown =>
      pieces.reference name (hknown _ List.mem_cons_self)
    parameter := fun name => holds_same fun hknown =>
      pieces.parameter name (hknown _ List.mem_cons_self)
    callee := by
      intro k target args args' hargs
      obtain rfl : args = args' := CallArgs.Alike.eq hargs
      exact holds_same (pieces.callee target args) }
  have hcompletes :
      T.accord.Completes recur recur' reading reading' id definition T.accord.Same := {
    made := fun hsame => hsame
    member := by
      intro name value _ j k service service' demands run run' hservice _ hrun hknown
      obtain rfl : service = service' := hservice.eq trivial
      exact ⟨pieces.member service name (hrun hknown).1, fun _ _ => trivial⟩
    extra := by
      intro k service service' code code' hservice hcode _
      obtain rfl : service = service' := hservice.eq trivial
      obtain rfl : code = code' := hcode.eq trivial
      exact ⟨pieces.extra service code, fun _ _ => trivial⟩
    decorate := by
      intro k service service' hservice
      obtain rfl : service = service' := hservice.eq trivial
      exact holds_same fun _ => pieces.decorate service }
  have hentity : T.accord.Holds () (definition.entityDemands reading'.candidates) T.accord.Same
      (reading.entity recur id definition) (reading'.entity recur' id definition) :=
    Accord.entity_holds hpieces definition fun v _ => hstates v
  exact (Accord.create_holds hpieces hcompletes hentity (fun v _ => hstates v) hknown).1

/-! ### Expressions -/

/-- The concord holds of what the expressions of routines are made of. Their demands were met when
they were compiled. -/
structure Evaluates (T : Concord) (recur recur' : Caller) (c : ContainerRef)
    (machine machine' : Machine) (id : String) : Prop where
  routine : ∀ position, T.Holds [] (recur (.routine c position)) (recur' (.routine c position))
  invoke : ∀ f args, T.Holds [] (recur (.invoke c f args)) (recur' (.invoke c f args))
  construct : ∀ className args,
    T.Holds [] ((machine.catalog.instantiate id className args).run recur)
      ((machine'.catalog.instantiate id className args).run recur')
  callService : ∀ name service args, T.Holds [] (Run.callService recur c id name service args)
    (Run.callService recur' c id name service args)
  callMethod : ∀ name service method args,
    T.Holds [] (Run.callMethod recur machine.catalog id name service method args)
      (Run.callMethod recur' machine'.catalog id name service method args)
  handle : ∀ target, T.Holds [] (Run.onStore (·.addHandle target (some c)))
    (Run.onStore (·.addHandle target (some c)))
  parameter : ∀ name, T.Holds [] (Run.ofExcept (machine.parameter name))
    (Run.ofExcept (machine'.parameter name))
  member : ∀ (service : Value) (name : String) {run run' : Run Value}, T.Holds [] run run' →
    T.Holds [] (Run.bindMember recur machine.catalog id service name run)
      (Run.bindMember recur' machine'.catalog id service name run')
  extra : ∀ service code,
    T.Holds [] (Run.runExtra recur c service code) (Run.runExtra recur' c service code)

theorem bind_plain {α β : Type} {run other : Run α} {next next' : α → Run β}
    (h : T.Holds [] run other) (hnext : ∀ a, T.Holds [] (next a) (next' a)) :
    T.Holds [] (run >>= next) (other >>= next') := by
  have hbind := T.bind h fun a _ => hnext a
  exact hbind

theorem forM {α : Type} {visit visit' : α → Run PUnit}
    (h : ∀ item, T.Holds [] (visit item) (visit' item)) (items : List α) :
    T.Holds [] (items.forM visit) (items.forM visit') := by
  induction items with
  | nil => exact T.pure _
  | cons item rest ih => exact bind_plain (h item) fun _ => ih

variable {c : ContainerRef} {machine machine' : Machine}

mutual

theorem eval_holds (pieces : T.Evaluates recur recur' c machine machine' id) : ∀ e : Expr,
    T.Holds [] (machine.eval recur c id e) (machine'.eval recur' c id e)
  | .literal v => by
      rw [Machine.eval, Machine.eval]
      exact T.pure v
  | .construct className args => by
      rw [Machine.eval, Machine.eval]
      exact bind_plain (callArgs_hold pieces args) (pieces.construct className)
  | .invoke f args => by
      rw [Machine.eval, Machine.eval]
      exact bind_plain (callArgs_hold pieces args) (pieces.invoke f)
  | .callService service args => by
      rw [Machine.eval, Machine.eval]
      apply bind_plain (callArgs_hold pieces args)
      intro values
      exact bind_plain (pieces.routine _) fun value => pieces.callService service.id value values
  | .callMethod service method args => by
      rw [Machine.eval, Machine.eval]
      apply bind_plain (callArgs_hold pieces args)
      intro values
      exact bind_plain (pieces.routine _) fun value =>
        pieces.callMethod service.id value method values
  | .service link => by
      rw [Machine.eval, Machine.eval]
      exact pieces.routine link.position
  | .handle link => by
      rw [Machine.eval, Machine.eval]
      exact bind_plain (pieces.handle link.id) fun l => T.pure _
  | .parameter name => by
      rw [Machine.eval, Machine.eval]
      exact pieces.parameter name
  | .list items => by
      rw [Machine.eval, Machine.eval]
      exact bind_plain (evalAll_hold pieces items) fun values => T.pure _

theorem callArgs_hold (pieces : T.Evaluates recur recur' c machine machine' id) :
    ∀ args : ExprArgs,
      T.Holds [] (machine.callArgs recur c id args) (machine'.callArgs recur' c id args)
  | .mk positional named => by
      rw [Machine.callArgs, Machine.callArgs]
      apply bind_plain (evalAll_hold pieces positional)
      intro values
      exact bind_plain (evalNamed_hold pieces named ∅) fun entries => T.pure _

theorem evalAll_hold (pieces : T.Evaluates recur recur' c machine machine' id) :
    ∀ items : List Expr,
      T.Holds [] (machine.evalAll recur c id items) (machine'.evalAll recur' c id items)
  | [] => by
      rw [Machine.evalAll, Machine.evalAll]
      exact T.pure []
  | item :: rest => by
      rw [Machine.evalAll, Machine.evalAll]
      apply bind_plain (eval_holds pieces item)
      intro first
      exact bind_plain (evalAll_hold pieces rest) fun others => T.pure _

theorem evalNamed_hold (pieces : T.Evaluates recur recur' c machine machine' id) :
    ∀ (items : List (String × Expr)) (values : Dict Value),
      T.Holds [] (machine.evalNamed recur c id items values)
        (machine'.evalNamed recur' c id items values)
  | [], values => by
      rw [Machine.evalNamed, Machine.evalNamed]
      exact T.pure values
  | (name, item) :: rest, values => by
      rw [Machine.evalNamed, Machine.evalNamed]
      exact bind_plain (eval_holds pieces item) fun value => evalNamed_hold pieces rest _

end

/-- **Routines.** A concord of the pieces is one of what routines make, whatever they are. -/
theorem routine_holds {routine : Routine}
    (pieces : T.Evaluates recur recur' c machine machine' routine.id)
    (hdecorate : ∀ service, T.Holds [] (Run.decorate recur c routine.decorators service)
      (Run.decorate recur' c routine.decorators service)) :
    T.Holds [] (machine.create recur c routine) (machine'.create recur' c routine) := by
  have hbind : ∀ service op, T.Holds [] (machine.bind recur c routine.id service op)
      (machine'.bind recur' c routine.id service op) := by
    intro service op
    cases op with
    | member name value => exact pieces.member service name (eval_holds pieces value)
    | extra code =>
        exact bind_plain (eval_holds pieces code) fun code => pieces.extra service code
  apply bind_plain (eval_holds pieces routine.body)
  intro service
  exact bind_plain (forM (hbind service) routine.bindings) fun _ => hdecorate service

end Concord

end Wiring
