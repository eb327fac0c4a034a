import Wiring.Proofs.Courses
import Wiring.Proofs.Heaps
import Wiring.Proofs.Purity

/-!
# Two containers in lockstep

Two containers of one origin, each in a world of its own, go through the same definitions. What they
hold may differ; `Terms` say how, and what two runs may rely on. Under terms that pass the `Rules` calls
that follow a name are coupled: they fail alike or give values alike, and the terms hold afterwards.
-/

namespace Wiring

open Run

/-- The entity makes an object of a class. -/
def Definition.ConstructsClass (definition : Definition) : Prop :=
  ∃ className, definition.application.2 = some (.construct className)

/-- Members are bound to such objects only. -/
def Definition.BindsConstructed (definition : Definition) : Prop :=
  ∀ name value, .member name value ∈ definition.bindings → definition.ConstructsClass

/-- What all runs have in common. -/
structure Setting where
  registry : Registry
  config : Config
  origin : Container
  home : ContainerRef
  /-- What user code may refer to by itself. -/
  known : Correspondence
  code : Array Code

namespace Setting

variable (s : Setting)

structure Sound : Prop where
  hosts : s.registry.Hosts s.config s.origin
  orderly : s.origin.Orderly
  pure : s.registry.Pure s.known s.code
  members : ∀ {id : String} {definition : Definition},
    s.registry.definition? id = some definition → definition.BindsConstructed
  depth : s.registry.definitions.size ≤ s.config.maxDepth
  parameter : ∀ {name : String} {v : Value},
    s.registry.parameter name = .ok v → v.Alike s.known v
  literals : ∀ {id : String} {definition : Definition},
    s.registry.definition? id = some definition → ∀ v ∈ definition.literals, v.Alike s.known v

def reading : Reading := s.registry.reading s.config s.home s.origin

/-- Making a service of the definition follows a name that leads to the next one. -/
def Edge (id next : String) : Prop :=
  ∃ definition, s.registry.definition? id = some definition ∧
    ∃ demand ∈ definition.demands s.reading.candidates, ∃ name,
      s.reading.Follows demand name ∧ s.origin.aim (s.reading.follow name) = some next

/-- Ids of definitions, none twice. -/
def Proper (chain : List String) : Prop :=
  chain.Nodup ∧ chain ⊆ s.registry.definitions.keys

/-- How many calls may be nested below one that is made under the chain. -/
def need (chain : List String) : Nat := 2 * (s.registry.definitions.size - chain.length)

variable {s}

theorem reading_home : s.reading.home = s.home := by
  unfold reading Registry.reading
  cases s.origin <;> rfl

theorem reading_catalog : s.reading.catalog = s.registry.catalog :=
  s.registry.reading_catalog s.config s.home s.origin

theorem reading_parameter : s.reading.parameter = s.registry.parameter := by
  unfold reading Registry.reading
  cases s.origin <;> rfl

theorem names_follow (name : String) : Call.Names s.home (s.reading.follow name) :=
  Registry.names_follow s.home name

theorem Sound.defines_iff (sound : s.Sound) {id : String} :
    s.origin.defines id ↔ id ∈ s.registry.definitions.keys := by
  rw [sound.hosts.defines_eq]
  exact Table.contains_iff

theorem Sound.definition (sound : s.Sound) {id : String} (hdefined : s.origin.defines id) :
    ∃ definition, s.registry.definition? id = some definition := by
  rw [sound.hosts.defines_eq] at hdefined
  exact Option.isSome_iff_exists.mp hdefined

theorem Sound.make_eq (sound : s.Sound) {a : Container} (hbare : a.bare = s.origin.bare) {id : String}
    {definition : Definition} (hfound : s.registry.definition? id = some definition)
    (recur : Caller) : a.make recur s.home id = s.reading.create recur id definition := by
  have hsame : s.registry.reading s.config s.home a = s.reading :=
    Container.eq_of_bare (fun container => by cases container <;> rfl) hbare
  rw [(sound.hosts.of_bare hbare).make_eq hfound, hsame]

section Proper

variable {chain : List String} {id : String}

theorem proper_nil : s.Proper [] := ⟨List.nodup_nil, List.nil_subset _⟩

theorem Proper.snoc (h : s.Proper chain) (hfresh : id ∉ chain)
    (hid : id ∈ s.registry.definitions.keys) : s.Proper (chain ++ [id]) :=
  ⟨Chain.nodup_concat h.1 hfresh, Chain.concat_subset h.2 hid⟩

theorem Proper.length_lt (h : s.Proper chain) (hfresh : id ∉ chain)
    (hid : id ∈ s.registry.definitions.keys) : chain.length < s.registry.definitions.size := by
  have hlt := Chain.length_lt_of_fresh h.1 h.2 hfresh hid
  rwa [Table.keys, Entries.keys, List.length_map] at hlt

theorem need_snoc (hlt : chain.length < s.registry.definitions.size) :
    s.need (chain ++ [id]) + 2 = s.need chain := by
  rw [need, need, List.length_append, List.length_singleton]
  omega

end Proper

end Setting

/-- How two containers that run side by side are related, and what their runs may rely on. -/
structure Terms where
  /-- What stands for each other from the start. -/
  floor : Correspondence
  left : Store
  right : Store
  leftChain : List String
  rightChain : List String
  Held : Correspondence → Container → Container → Prop
  /-- Whether the second run has to fail where the first one fails. -/
  strict : Prop
  /-- Which ids the first run may come to under a chain. -/
  Safe : List String → String → Prop
  /-- What is learned of an id whose service was given. -/
  Gained : String → Prop
  /-- How deep the first run may nest its calls. -/
  Fuel : Nat → Prop

/-- Objects that neither base store has. -/
def Terms.beyond (t : Terms) : Ownership :=
  fun x y => t.left.objects.size ≤ x ∧ t.right.objects.size ≤ y

/-- Two worlds in which the terms hold. Below the chains of the terms both containers have the same
under construction. -/
structure Pair (s : Setting) (t : Terms) where
  refs : Correspondence
  world : World
  world' : World
  a : Container
  b : Container
  chain : List String
  at_left : world.container? s.home = some a
  at_right : world'.container? s.home = some b
  bare_left : a.bare = s.origin.bare
  bare_right : b.bare = s.origin.bare
  loading_left : a.loading = t.leftChain ++ chain
  loading_right : b.loading = t.rightChain ++ chain
  proper_left : s.Proper (t.leftChain ++ chain)
  proper_right : s.Proper (t.rightChain ++ chain)
  heap : Heap t.floor t.left t.right refs world.store world'.store
  held : t.Held refs a b

def Coupling.lockstep (s : Setting) (t : Terms) : Coupling where
  Index := Pair s t
  Leads i j := i.refs ≤ j.refs ∧ j.chain = i.chain
  refl i := ⟨le_refl i.refs, rfl⟩
  trans h h' := ⟨h.1.trans h'.1, h'.2.trans h.2⟩
  refs i := i.refs
  refs_mono h := h.1
  Worlds k world world' := world = k.world ∧ world' = k.world'
  strict := t.strict
  unfinished := False

/-- Code is the same on both sides, and changes in the stores and chains are not the terms' concern. -/
structure Terms.Grounded (s : Setting) (t : Terms) : Prop where
  known : s.known ≤ t.floor
  left_code : t.left.code = s.code
  right_code : t.right.code = s.code
  paired : ∀ {R : Correspondence} {a b : Container}, t.Held R a b → ∀ {space : Space} {x y : Nat},
    t.left.size space ≤ x → t.right.size space ≤ y → t.Held (R ⊔ .pair space x y) a b
  setLoading : ∀ {R : Correspondence} {a b : Container}, t.Held R a b →
    ∀ chain chain', t.Held R (a.setLoading chain) (b.setLoading chain')

namespace Reading

variable {reading : Reading} {definition : Definition} {className : String}
  (hclass : definition.application.2 = some (.construct className))

include hclass

theorem entity_of_class (recur : Caller) (id : String) :
    reading.entity recur id definition =
      reading.application recur id definition.application.1 (.construct className) := by
  unfold Definition.application at hclass ⊢
  unfold entity
  cases hentity : definition.entity with
  | value v =>
      rw [hentity] at hclass
      cases hclass
  | construct name =>
      rw [hentity] at hclass
      obtain rfl := Callee.construct.inj (Option.some.inj hclass)
      rfl
  | invocable f =>
      rw [hentity] at hclass
      cases hclass
  | statement body =>
      rw [hentity] at hclass
      have hcallee : body.callee = .construct className := Option.some.inj hclass
      dsimp only
      rw [hcallee]

theorem entityDemands_of_class : definition.entityDemands reading.candidates =
    definition.application.1.demands reading.candidates ++
      (Callee.construct className).demands definition.application.1.positional.length := by
  unfold Definition.entityDemands
  generalize definition.application = application at hclass
  obtain ⟨args, callee⟩ := application
  obtain rfl : callee = some (.construct className) := hclass
  rfl

theorem entityLiterals_of_class :
    definition.entityLiterals = definition.application.1.literals := by
  unfold Definition.entityLiterals
  unfold Definition.application at hclass
  cases hentity : definition.entity with
  | value v =>
      rw [hentity] at hclass
      cases hclass
  | _ => rfl

end Reading

section Pair

variable {s : Setting} {t : Terms} {α α' : Type} {recur recur' : Caller}

/-- From the pair on the two runs are coupled. -/
abbrev Pair.Couples (k : Pair s t) (V : Pair s t → α → α' → Prop) (run : Run α) (other : Run α') :
    Prop := (Coupling.lockstep s t).Couples k V run other

abbrev Pair.Same (k : Pair s t) (v w : Value) : Prop := v.Alike k.refs w

/-- The stores change and the containers stay. -/
def Pair.withStores (k : Pair s t) (refs : Correspondence) (store store' : Store)
    (heap : Heap t.floor t.left t.right refs store store') (held : t.Held refs k.a k.b) :
    Pair s t :=
  { k with
    refs, heap, held
    world := { k.world with store }
    world' := { k.world' with store := store' }
    at_left := k.at_left
    at_right := k.at_right }

/-- Where the first run may stop short, it may. -/
theorem Pair.unfinished {V : Pair s t → α → α' → Prop} {run : Run α} {other : Run α'} {k : Pair s t}
    (hlax : ¬ t.strict) (hrun : ∃ halt later, run k.world = (.error halt, later)) :
    k.Couples V run other := by
  obtain ⟨halt, later, hrun⟩ := hrun
  rintro world world' ⟨rfl, rfl⟩
  rw [hrun]
  exact .waived _ hlax

/-! ### User code -/

/-- **Pure user code** does the same on both sides. -/
theorem Behaviour.Alike.couples (grounded : t.Grounded s)
    {V : Correspondence → Ownership → α → α' → Prop} {R : Correspondence} {own : Ownership}
    {b : Behaviour α} {b' : Behaviour α'} (h : Behaviour.Alike V R own b b') :
    ∀ {k : Pair s t}, k.refs = R → own ≤ t.beyond →
      k.Couples (fun j a a' => ∃ more, more ≤ t.beyond ∧ V j.refs more a a') (b.run recur)
        (b'.run recur') := by
  have hask : ∀ {β : Type} {request : Request} {next : request.Reply → Behaviour β}
      {recur : Caller} {world : World} {reply : request.Reply} (later : World),
      request.perform recur world = (.ok reply, later) →
        (Behaviour.ask request next).run recur world = (next reply).run recur later :=
    fun _ hperform => bind_of_ok hperform _
  induction h with
  | ok hvalue =>
      rintro k rfl hown
      exact .pure ⟨_, hown, hvalue⟩
  | error error => exact fun _ _ => .fail error
  | @note R own n n' next next' h ih =>
      rintro k rfl hown world world' ⟨rfl, rfl⟩
      have heap := (k.heap.record_left (.noted n)).record_right (.noted n')
      let j := k.withStores k.refs _ _ heap k.held
      have hends := ih (k := j) rfl hown _ _ ⟨rfl, rfl⟩
      rw [hask j.world rfl, hask j.world' rfl]
      have hleads : (Coupling.lockstep s t).Leads k j := ⟨le_refl _, rfl⟩
      exact hends.since hleads
  | @allocate R own className next next' h ih =>
      rintro k rfl hown world world' ⟨rfl, rfl⟩
      obtain ⟨hleft, hright⟩ := k.heap.unpaired .objects
      have hsize := k.heap.left.size_le .objects
      have hsize' := k.heap.right.size_le .objects
      have heap := k.heap.allocate className
      let j := k.withStores _ _ _ heap (grounded.paired k.held hsize hsize')
      have hends := ih _ _ hleft hright (k := j) rfl ?_ _ _ ⟨rfl, rfl⟩
      · rw [hask j.world rfl, hask j.world' rfl]
        have hleads : (Coupling.lockstep s t).Leads k j := ⟨le_sup_left, rfl⟩
        exact hends.since hleads
      · rintro x y (howned | ⟨rfl, rfl⟩)
        · exact hown x y howned
        · exact ⟨hsize, hsize'⟩
  | @properties R own o o' next next' hsame h ih =>
      rintro k rfl hown world world' ⟨rfl, rfl⟩
      have hends := ih _ _ (k.heap.properties hsame) rfl hown _ _ ⟨rfl, rfl⟩
      rw [hask k.world rfl, hask k.world' rfl]
      exact hends
  | @setProperty R own o o' name v w next next' hsame howned hvalue h ih =>
      rintro k rfl hown world world' ⟨rfl, rfl⟩
      obtain ⟨hnew, hnew'⟩ := hown _ _ howned
      have heap := k.heap.setProperty hsame hnew hnew' name hvalue
      let j := k.withStores k.refs _ _ heap k.held
      have hends := ih (k := j) rfl hown _ _ ⟨rfl, rfl⟩
      rw [hask j.world rfl, hask j.world' rfl]
      have hleads : (Coupling.lockstep s t).Leads k j := ⟨le_refl _, rfl⟩
      exact hends.since hleads

theorem Behaviour.Alike.couples_value (grounded : t.Grounded s) {b b' : Behaviour Value}
    {k : Pair s t} (h : Behaviour.Alike (fun R _ => Value.Alike R) k.refs .none b b') :
    k.Couples Pair.Same (b.run recur) (b'.run recur') :=
  (h.couples grounded rfl fun _ _ hnone => hnone.elim).imp fun _ _ _ _ ⟨_, _, hsame⟩ => hsame

/-! ### Making a service -/

theorem Pair.known_le (grounded : t.Grounded s) (k : Pair s t) : s.known ≤ k.refs :=
  grounded.known.trans k.heap.floor

theorem Pair.known_same (grounded : t.Grounded s) {v : Value} (h : v.Alike s.known v)
    (k : Pair s t) : k.Same v v := h.mono (k.known_le grounded)

section Making

variable (sound : s.Sound) (grounded : t.Grounded s) {n m : Nat} (hfuel : t.strict → n = m)
  (hm : 0 < m)

include sound grounded hfuel hm

theorem Pair.invoke_couples (k : Pair s t) (f : CallableRef) {args args' : CallArgs}
    (hargs : args.Alike k.refs args') :
    k.Couples Pair.Same (Call.run n (.invoke s.home f args)) (Call.run m (.invoke s.home f args')) := by
  obtain ⟨m, rfl⟩ : ∃ less, m = less + 1 := ⟨m - 1, by omega⟩
  cases n with
  | zero =>
      refine Pair.unfinished (fun hstrict => ?_) ⟨_, _, rfl⟩
      have hsame := hfuel hstrict
      omega
  | succ n =>
      rintro world world' ⟨rfl, rfl⟩
      have hleft : k.world.store.codeOf? f = s.code[f.address]? := by
        rw [Store.codeOf?, k.heap.left.code, grounded.left_code]
      have hright : k.world'.store.codeOf? f = s.code[f.address]? := by
        rw [Store.codeOf?, k.heap.right.code, grounded.right_code]
      cases hcode : s.code[f.address]? with
      | none =>
          rw [Call.run_invoke_uncoded (hleft.trans hcode),
            Call.run_invoke_uncoded (hright.trans hcode)]
          exact .ok ((Coupling.lockstep s t).refl k) ⟨rfl, rfl⟩ trivial
      | some body =>
          rw [Call.run_invoke (hleft.trans hcode), Call.run_invoke (hright.trans hcode)]
          have halike := sound.pure.code body (Array.mem_of_getElem? hcode) s.home k.heap.bijective
            (k.known_le grounded) hargs
          exact halike.couples_value grounded _ _ ⟨rfl, rfl⟩

theorem Pair.supports (k : Pair s t) :
    (Coupling.lockstep s t).Supports k (Call.run n) (Call.run m) s.reading where
  invoke {j f args args'} _ hargs := by
    rw [Setting.reading_home]
    exact j.invoke_couples sound grounded hfuel hm f hargs
  instantiate {j id className args args'} _ hargs := by
    rw [Setting.reading_catalog]
    refine ((sound.pure.catalog.instantiate j.heap.bijective (j.known_le grounded) id className
      hargs).couples grounded rfl fun _ _ hnone => hnone.elim).imp ?_
    rintro i v w _ ⟨more, _, o, o', rfl, rfl, _, hsame⟩
    exact hsame
  callMethod {j id o o' method args args'} _ hobject hargs := by
    rw [Setting.reading_catalog]
    exact (sound.pure.catalog.callMethod j.heap.bijective (j.known_le grounded) id hobject method
      hargs).couples_value grounded
  handle {j target} _ := by
    rintro world world' ⟨rfl, rfl⟩
    have hsize := j.heap.left.size_le .handles
    have hsize' := j.heap.right.size_le .handles
    let i := j.withStores _ _ _ (j.heap.addHandle target (some s.reading.home))
      (grounded.paired j.held hsize hsize')
    have hleads : (Coupling.lockstep s t).Leads j i := ⟨le_sup_left, rfl⟩
    exact .ok hleads ⟨rfl, rfl⟩ ⟨.inr ⟨rfl, rfl, rfl⟩, rfl⟩
  parameter {name v} hfound := by
    rw [Setting.reading_parameter] at hfound
    exact k.known_same grounded (sound.parameter hfound)

/-- An object that a class makes is new. -/
def Pair.Fresh (definition : Definition) (k : Pair s t) (v w : Value) : Prop :=
  k.Same v w ∧ (definition.ConstructsClass → ∀ o o', v = .object o → w = .object o' →
    t.beyond o.address o'.address)

theorem Pair.entity_couples {k : Pair s t} {id : String} {definition : Definition}
    (hfound : s.registry.definition? id = some definition) {Met : String → Prop}
    (hmeets : ∀ demand ∈ definition.entityDemands s.reading.candidates,
      (Coupling.lockstep s t).Meets Met k (Call.run n) (Call.run m) s.reading demand) :
    k.Couples ((Coupling.lockstep s t).Having s.reading Met
        (definition.entityDemands s.reading.candidates) (Pair.Fresh definition))
      (s.reading.entity (Call.run n) id definition)
      (s.reading.entity (Call.run m) id definition) := by
  have supports := k.supports sound grounded hfuel hm
  have hliterals : ∀ v ∈ definition.entityLiterals, k.Same v v := fun v hv =>
    k.known_same grounded (sound.literals hfound v (List.mem_append_left _ hv))
  by_cases hclass : definition.ConstructsClass
  · obtain ⟨className, hconstructs⟩ := hclass
    rw [Reading.entityDemands_of_class hconstructs] at hmeets ⊢
    rw [Reading.entityLiterals_of_class hconstructs] at hliterals
    rw [Reading.entity_of_class hconstructs, Reading.entity_of_class hconstructs]
    refine Coupling.application_couples supports _ _ hmeets hliterals ?_
    intro j args args' _ hargs
    have halike := sound.pure.catalog.instantiate j.heap.bijective (j.known_le grounded) id className
      hargs
    rw [Reading.callee, Reading.callee, Setting.reading_catalog]
    refine (halike.couples grounded rfl fun _ _ hnone => hnone.elim).imp ?_
    rintro i v w _ ⟨more, hmore, o, o', rfl, rfl, howned, hsame⟩
    refine ⟨⟨hsame, fun _ p p' hp hp' => ?_⟩, fun demand hdemand name hfollows => ?_⟩
    · obtain rfl := Value.object.inj hp
      obtain rfl := Value.object.inj hp'
      exact hmore _ _ howned
    · obtain rfl := List.mem_singleton.mp hdemand
      exact hfollows.elim
  · exact (Coupling.entity_couples supports definition hmeets hliterals).imp
      fun _ _ _ _ hhaving => ⟨⟨hhaving.1, fun hc => absurd hc hclass⟩, hhaving.2⟩

/-- **Services** of a definition come out alike, if what its names stand for does. -/
theorem Pair.create_couples {k : Pair s t} {id : String} {definition : Definition}
    (hfound : s.registry.definition? id = some definition) {Met : String → Prop}
    (hmeets : ∀ demand ∈ definition.demands s.reading.candidates,
      (Coupling.lockstep s t).Meets Met k (Call.run n) (Call.run m) s.reading demand) :
    k.Couples ((Coupling.lockstep s t).Having s.reading Met
        (definition.demands s.reading.candidates) Pair.Same)
      (s.reading.create (Call.run n) id definition)
      (s.reading.create (Call.run m) id definition) := by
  have supports := k.supports sound grounded hfuel hm
  refine Coupling.create_couples supports definition
    (k.entity_couples sound grounded hfuel hm hfound
      fun demand hdemand => hmeets demand (List.mem_append_left _ hdemand))
    (fun j v w hfresh => hfresh.1) hmeets
    (fun v hv => k.known_same grounded (sound.literals hfound v (List.mem_append_right _ hv))) ?_ ?_
  · intro name value hbinding j o o' hfresh i v w hlater hvalue
    obtain ⟨hobject, hnew⟩ := hfresh
    have hbeyond := hnew (sound.members hfound name value hbinding) o o' rfl rfl
    have halike := sound.pure.catalog.applyMember i.heap.bijective (i.known_le grounded)
      (hobject.mono hlater.1) name hvalue
    rw [Setting.reading_catalog]
    refine (halike.couples grounded rfl ?_).imp fun _ _ _ _ _ => trivial
    rintro x y ⟨rfl, rfl⟩
    exact hbeyond
  · intro decorator hdecorator j v w _ hvalue
    exact (sound.pure.decorators hfound decorator hdecorator s.reading.home j.heap.bijective
      (j.known_le grounded) hvalue).couples_value grounded

end Making

end Pair
end Wiring
