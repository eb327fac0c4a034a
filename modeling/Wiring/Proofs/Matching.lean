import Wiring.Proofs.Accords
import Wiring.Proofs.ResetFree

/-!
# Runs that match

Two runs match from related worlds if, whenever the leading one ends, the other ends alike, and the
worlds that they leave are related again. Either of the two may lead: what is put together from
matching pieces matches in both directions for one reason.
-/

namespace Wiring

/-- Which of two runs is given to end. -/
inductive Side where
  | left
  | right

namespace Run

variable {α β : Type}

/-- From `world` the run is not given up. -/
def Ends (run : Run α) (world : World) : Prop := (run world).1 ≠ .error .unfinished

theorem Ends.of_ok {run : Run α} {world later : World} {a : α}
    (hrun : run world = (.ok a, later)) : run.Ends world := by
  rw [Ends, hrun]
  intro hgiven
  cases hgiven

theorem Ends.of_bind {run : Run α} {next : α → Run β} {world : World}
    (h : (run >>= next).Ends world) : run.Ends world := by
  intro hgiven
  apply h
  rw [bind_of_error (Prod.ext hgiven rfl)]

theorem Ends.next {run : Run α} {next : α → Run β} {world later : World} {a : α}
    (h : (run >>= next).Ends world) (hrun : run world = (.ok a, later)) : (next a).Ends later := by
  rwa [Ends, bind_of_ok hrun] at h

theorem Ends.of_outcome {run : Run α} {world : World} (h : (outcome run).Ends world) :
    run.Ends world := by
  intro hgiven
  apply h
  rw [outcome_of_unfinished (Prod.ext hgiven rfl)]

end Run

/-- The leading run ends. -/
def Side.Ends {α : Type} (side : Side) (run other : Run α) (world world' : World) : Prop :=
  match side with
  | .left => run.Ends world
  | .right => other.Ends world'

theorem Side.Ends.imp {α β : Type} {side : Side} {run other : Run α} {run' other' : Run β}
    {world world' later later' : World} (h : side.Ends run other world world')
    (hleft : run.Ends world → run'.Ends later) (hright : other.Ends world' → other'.Ends later') :
    side.Ends run' other' later later' := by
  cases side with
  | left => exact hleft h
  | right => exact hright h

namespace Run

variable {α β : Type} {side : Side} {R : World → World → Prop}

def Matches (side : Side) (R : World → World → Prop) (run other : Run α) : Prop :=
  ∀ world world', R world world' → side.Ends run other world world' →
    (run world).1 = (other world').1 ∧ R (run world).2 (other world').2

theorem Matches.pure (a : α) : Matches side R (pure a : Run α) (pure a) :=
  fun _ _ hworlds _ => ⟨rfl, hworlds⟩

theorem Matches.fail (error : Error) : Matches side R (fail error : Run α) (fail error) :=
  fun _ _ hworlds _ => ⟨rfl, hworlds⟩

/-- A leading run that is given up matches whatever follows. -/
theorem Matches.unfinished_left (other : Run α) :
    Matches .left R (throw .unfinished : Run α) other := fun _ _ _ hends => absurd rfl hends

theorem Matches.unfinished_right (run : Run α) :
    Matches .right R run (throw .unfinished : Run α) := fun _ _ _ hends => absurd rfl hends

theorem Matches.ofExcept (result : Except Error α) :
    Matches side R (ofExcept result) (ofExcept result) := by
  cases result with
  | ok a => exact .pure a
  | error error => exact .fail error

/-- What comes next need only match for what the second run can give. -/
theorem Matches.bind_given {run other : Run α} {next next' : α → Run β}
    (hrun : Matches side R run other)
    (hnext : ∀ a, other.Gives a → Matches side R (next a) (next' a)) :
    Matches side R (run >>= next) (other >>= next') := by
  intro world world' hworlds hends
  obtain ⟨hsame, hworlds'⟩ :=
    hrun world world' hworlds (hends.imp Ends.of_bind Ends.of_bind)
  cases hleft : run world with
  | mk result later =>
      cases hright : other world' with
      | mk result' later' =>
          rw [hleft, hright] at hsame hworlds'
          obtain rfl : result = result' := hsame
          cases result with
          | ok a =>
              rw [bind_of_ok hleft, bind_of_ok hright]
              apply hnext a ⟨world', later', hright⟩ later later' hworlds'
              exact hends.imp (fun h => h.next hleft) fun h => h.next hright
          | error halt =>
              rw [bind_of_error hleft, bind_of_error hright]
              exact ⟨rfl, hworlds'⟩

theorem Matches.bind {run other : Run α} {next next' : α → Run β}
    (hrun : Matches side R run other) (hnext : ∀ a, Matches side R (next a) (next' a)) :
    Matches side R (run >>= next) (other >>= next') :=
  hrun.bind_given fun a _ => hnext a

/-- Where the demands of which enough is `known` are met, the runs match. -/
def Matches.concord (side : Side) (R : World → World → Prop) (known : Demand → Prop) : Concord where
  Known := known
  Holds _ run other := Matches side R run other
  pure := .pure
  bind h hnext := h.bind_given hnext

theorem Matches.outcome {run other : Run α} (hrun : Matches side R run other) :
    Matches side R (outcome run) (outcome other) := by
  intro world world' hworlds hends
  obtain ⟨hsame, hworlds'⟩ :=
    hrun world world' hworlds (hends.imp Ends.of_outcome Ends.of_outcome)
  cases hleft : run world with
  | mk result later =>
      cases hright : other world' with
      | mk result' later' =>
          rw [hleft, hright] at hsame hworlds'
          obtain rfl : result = result' := hsame
          cases result with
          | ok a =>
              rw [outcome_of_ok hleft, outcome_of_ok hright]
              exact ⟨rfl, hworlds'⟩
          | error halt =>
              cases halt with
              | error error =>
                  rw [outcome_of_error hleft, outcome_of_error hright]
                  exact ⟨rfl, hworlds'⟩
              | unfinished =>
                  rw [outcome_of_unfinished hleft, outcome_of_unfinished hright]
                  exact ⟨rfl, hworlds'⟩

theorem Matches.ensuring {run other : Run α} {after after' : World → World}
    (hrun : Matches side R run other)
    (hafter : ∀ world world', R world world' → R (after world) (after' world')) :
    Matches side R (ensuring run after) (ensuring other after') := by
  intro world world' hworlds hends
  obtain ⟨hsame, hworlds'⟩ := hrun world world' hworlds (hends.imp id id)
  rw [ensuring_apply, ensuring_apply]
  exact ⟨hsame, hafter _ _ hworlds'⟩

/-- What is done may depend on what the worlds are. -/
theorem Matches.world {next next' : World → Run β}
    (h : ∀ world world', R world world' → Matches side R (next world) (next' world')) :
    Matches side R (Run.world >>= next) (Run.world >>= next') := by
  intro world world' hworlds hends
  have hleft : (Run.world >>= next) world = next world world := bind_of_ok (get_apply world) next
  have hright : (Run.world >>= next') world' = next' world' world' :=
    bind_of_ok (get_apply world') next'
  rw [hleft, hright]
  apply h world world' hworlds world world' hworlds
  exact hends.imp (fun h => h.next (get_apply world)) fun h => h.next (get_apply world')

theorem Matches.modify {f g : World → World}
    (h : ∀ world world', R world world' → R (f world) (g world')) :
    Matches side R (modify f : Run PUnit) (modify g) :=
  fun world world' hworlds _ => ⟨rfl, h world world' hworlds⟩

theorem Matches.mapM {items : List α} {visit visit' : α → Run β}
    (h : ∀ item ∈ items, Matches side R (visit item) (visit' item)) :
    Matches side R (items.mapM visit) (items.mapM visit') := by
  induction items with
  | nil => exact .pure []
  | cons item rest ih =>
      rw [List.mapM_cons, List.mapM_cons]
      apply (h item List.mem_cons_self).bind
      intro first
      refine (ih fun other hother => ?_).bind fun others => .pure _
      exact h other (List.mem_cons_of_mem _ hother)

theorem Matches.forM {items : List α} {visit visit' : α → Run PUnit}
    (h : ∀ item ∈ items, Matches side R (visit item) (visit' item)) :
    Matches side R (items.forM visit) (items.forM visit') := by
  induction items with
  | nil => exact .pure _
  | cons item rest ih =>
      refine Matches.bind (h item List.mem_cons_self) fun _ => ?_
      exact ih fun other hother => h other (List.mem_cons_of_mem _ hother)

theorem Matches.foldlM {items : List β} {step step' : α → β → Run α}
    (h : ∀ item ∈ items, ∀ a, Matches side R (step a item) (step' a item)) (a : α) :
    Matches side R (items.foldlM step a) (items.foldlM step' a) := by
  induction items generalizing a with
  | nil => exact .pure a
  | cons item rest ih =>
      rw [List.foldlM_cons, List.foldlM_cons]
      apply (h item List.mem_cons_self a).bind
      intro b
      exact ih (fun other hother => h other (List.mem_cons_of_mem _ hother)) b

end Run

/-! ### Worlds alike -/

theorem World.container?_put {world : World} {c : ContainerRef} {old : Container}
    (hat : world.container? c = some old) (container : Container) (d : ContainerRef) :
    (world.put c container).container? d = if d = c then some container else world.container? d := by
  by_cases hsame : d = c
  · subst hsame
    rw [if_pos rfl]
    exact container?_put_self world d container old hat
  · have hindex : c.index ≠ d.index := fun h => hsame (congrArg ContainerRef.mk h.symm)
    rw [if_neg hsame]
    unfold container? put
    dsimp only
    rw [Array.getElem?_setIfInBounds_ne hindex]

/-- What a request can tell of a container is told alike of containers that `K` relates. -/
structure Container.Congruent (K : Container → Container → Prop) : Prop where
  has : ∀ {a b}, K a b → ∀ id, a.has id = b.has id
  keys : ∀ {a b}, K a b → a.keys = b.keys
  parameter : ∀ {a b}, K a b → ∀ name, a.parameter name = b.parameter name
  tagged : ∀ {a b}, K a b → ∀ tag, a.tagged tag = b.tagged tag
  initialized : ∀ {a b}, K a b → ∀ id, a.initialized id = b.initialized id
  catalog : ∀ {a b}, K a b → a.catalog = b.catalog
  maxDepth : ∀ {a b}, K a b → a.maxDepth = b.maxDepth
  handler : ∀ {a b}, K a b → a.handler = b.handler
  loading : ∀ {a b}, K a b → a.loading = b.loading
  setLoading : ∀ {a b}, K a b → ∀ chain, K (a.setLoading chain) (b.setLoading chain)
  clearCache : ∀ {a b}, K a b → K a.clearCache b.clearCache
  clearRuntimeState : ∀ {a b}, K a b → K a.clearRuntimeState b.clearRuntimeState

/-- Containers are related by `K`, and the stores are the same but for what the journals began with:
`p` in one world, `q` in the other. -/
structure World.Alike (K : Container → Container → Prop) (p q : Array Event) (world other : World) :
    Prop where
  store : ∃ events, world.store.journal = p ++ events ∧
    other.store = { world.store with journal := q ++ events }
  containers : ∀ c, Option.Rel K (world.container? c) (other.container? c)
  code : ∀ body ∈ world.store.code, ∀ c args, (body c args).ResetFree

/-- The change has nothing to do with the journal, and puts no code into the store. -/
def Store.Silent {α : Type} (f : Store → α × Store) : Prop :=
  ∀ store journal, f { store with journal } = ((f store).1, { (f store).2 with journal }) ∧
    (f store).2.code = store.code

theorem Store.silent_allocate (className : String) :
    Silent fun store => store.allocate className := fun _ _ => ⟨rfl, rfl⟩

theorem Store.silent_count (key : String) : Silent fun store => store.count key :=
  fun _ _ => ⟨rfl, rfl⟩

theorem Store.silent_setProperty (o : ObjectRef) (name : String) (value : Value) :
    Silent fun store => ((), store.setProperty o name value) := fun _ _ => ⟨rfl, rfl⟩

theorem Store.silent_addHandle (target : String) (home : Option ContainerRef) :
    Silent fun store => store.addHandle target home := fun _ _ => ⟨rfl, rfl⟩

theorem Store.silent_settle (l : LazyRef) (value : Value) :
    Silent fun store => store.settle l value := by
  intro store journal
  have hsame : ({ store with journal } : Store).cell l = store.cell l := rfl
  cases hheld : (store.cell l).value with
  | none => simp only [settle, hsame, hheld, and_self]
  | some held => simp only [settle, hsame, hheld, and_self]

namespace World

variable {K : Container → Container → Prop} {p q : Array Event} {world other : World}

theorem Alike.cases_container (h : world.Alike K p q other) (c : ContainerRef) :
    (world.container? c = none ∧ other.container? c = none) ∨
      ∃ a b, world.container? c = some a ∧ other.container? c = some b ∧ K a b := by
  have hrel := h.containers c
  generalize world.container? c = left, other.container? c = right at hrel
  cases hrel with
  | none => exact .inl ⟨rfl, rfl⟩
  | some hrelated => exact .inr ⟨_, _, rfl, rfl, hrelated⟩

theorem Alike.put (h : world.Alike K p q other) {c : ContainerRef} {a b a' b' : Container}
    (ha : world.container? c = some a) (hb : other.container? c = some b) (hrelated : K a' b') :
    (world.put c a').Alike K p q (other.put c b') where
  store := h.store
  containers d := by
    rw [container?_put ha, container?_put hb]
    split
    · exact .some hrelated
    · exact h.containers d
  code := h.code

theorem Alike.record (h : world.Alike K p q other) (event : Event) :
    ({ world with store := world.store.record event } : World).Alike K p q
      { other with store := other.store.record event } where
  store := by
    obtain ⟨events, hjournal, hstore⟩ := h.store
    refine ⟨events.push event, ?_, ?_⟩
    · change world.store.journal.push event = _
      rw [hjournal, Array.append_push]
    · dsimp only
      rw [hstore, Store.record, Store.record, Array.append_push]
  containers := h.containers
  code := h.code

theorem Alike.silent {α : Type} {f : Store → α × Store} (hf : Store.Silent f)
    (h : world.Alike K p q other) :
    (f world.store).1 = (f other.store).1 ∧
      ({ world with store := (f world.store).2 } : World).Alike K p q
        { other with store := (f other.store).2 } := by
  obtain ⟨events, hjournal, hstore⟩ := h.store
  have hself := (hf world.store world.store.journal).1
  have hkept : (f world.store).2.journal = world.store.journal := congrArg (·.2.journal) hself
  rw [hstore, (hf world.store (q ++ events)).1]
  refine ⟨rfl, ⟨events, hkept.trans hjournal, rfl⟩, h.containers, ?_⟩
  dsimp only
  rw [(hf world.store #[]).2]
  exact h.code

end World

/-! ### What user code asks for -/

/-- The calls that user code can lead to, resets apart, match. -/
structure Caller.Matches (side : Side) (R : World → World → Prop) (recur recur' : Caller) : Prop where
  get : ∀ c id options,
    Run.Matches side R (recur (.get c id options)) (recur' (.get c id options))
  resolve : ∀ c id options,
    Run.Matches side R (recur (.resolve c id options)) (recur' (.resolve c id options))
  invoke : ∀ c f args, Run.Matches side R (recur (.invoke c f args)) (recur' (.invoke c f args))
  force : ∀ l, Run.Matches side R (recur (.force l)) (recur' (.force l))

section Asking

variable {side : Side} {K : Container → Container → Prop} {p q : Array Event}

namespace Run

variable {α β : Type}

theorem Matches.onStore {f : Store → α × Store} (hf : Store.Silent f) :
    Matches side (World.Alike K p q) (onStore f) (onStore f) := by
  intro world world' hworlds _
  obtain ⟨hsame, hworlds'⟩ := hworlds.silent hf
  exact ⟨congrArg Except.ok hsame, hworlds'⟩

theorem Matches.record (event : Event) :
    Matches side (World.Alike K p q) (changeStore (·.record event)) (changeStore (·.record event)) :=
  .modify fun _ _ hworlds => hworlds.record event

/-- What is done may depend on what the containers are, as far as the relation tells. -/
theorem Matches.container_of {R : World → World → Prop} {c : ContainerRef}
    (hR : ∀ world world', R world world' →
      (world.container? c = none ∧ world'.container? c = none) ∨
        ∃ a b, world.container? c = some a ∧ world'.container? c = some b ∧ K a b)
    {next next' : Container → Run β} (h : ∀ a b, K a b → Matches side R (next a) (next' b)) :
    Matches side R (Run.container c >>= next) (Run.container c >>= next') := by
  intro world world' hworlds hends
  rcases hR world world' hworlds with ⟨hleft, hright⟩ | ⟨a, b, hleft, hright, hrelated⟩
  · rw [bind_of_error (container_absent hleft), bind_of_error (container_absent hright)]
    exact ⟨rfl, hworlds⟩
  · rw [bind_of_ok (container_apply hleft), bind_of_ok (container_apply hright)]
    apply h a b hrelated world world' hworlds
    exact hends.imp (fun h => h.next (container_apply hleft)) fun h => h.next (container_apply hright)

theorem Matches.container {c : ContainerRef} {next next' : Container → Run β}
    (h : ∀ a b, K a b → Matches side (World.Alike K p q) (next a) (next' b)) :
    Matches side (World.Alike K p q) (Run.container c >>= next) (Run.container c >>= next') :=
  .container_of (fun _ _ hworlds => hworlds.cases_container c) h

theorem Matches.changeContainer {c : ContainerRef} {f g : Container → Container}
    (h : ∀ a b, K a b → K (f a) (g b)) :
    Matches side (World.Alike K p q) (changeContainer c f) (changeContainer c g) := by
  intro world world' hworlds _
  rcases hworlds.cases_container c with ⟨hleft, hright⟩ | ⟨a, b, hleft, hright, hrelated⟩
  · rw [Run.changeContainer, Run.changeContainer, bind_of_error (container_absent hleft),
      bind_of_error (container_absent hright)]
    exact ⟨rfl, hworlds⟩
  · rw [changeContainer_apply hleft, changeContainer_apply hright]
    exact ⟨rfl, hworlds.put hleft hright (h a b hrelated)⟩

section Congruent

variable (congruent : Container.Congruent K)

include congruent

theorem alike_cut {world other : World} (h : world.Alike K p q other) (c : ContainerRef)
    (depth : Nat) : (cut c depth world).Alike K p q (cut c depth other) := by
  rcases h.cases_container c with ⟨hleft, hright⟩ | ⟨a, b, hleft, hright, hrelated⟩
  · rw [cut, cut, hleft, hright]
    exact h
  · rw [cut_apply hleft, cut_apply hright, congruent.loading hrelated]
    exact h.put hleft hright (congruent.setLoading hrelated _)

theorem Matches.entering {c : ContainerRef} {id : String} {run other : Run α}
    (h : Matches side (World.Alike K p q) run other) :
    Matches side (World.Alike K p q) (entering c id run) (entering c id other) := by
  apply Matches.container
  intro a b hrelated
  rw [congruent.maxDepth hrelated, congruent.loading hrelated]
  apply (Matches.ofExcept _).bind
  intro chain
  refine (Matches.changeContainer fun _ _ hrelated => congruent.setLoading hrelated chain).bind
    fun _ => ?_
  exact h.ensuring fun _ _ hworlds => alike_cut congruent hworlds c _

theorem Matches.announce (c : ContainerRef) (id : String) (notice : Option Deprecation) :
    Matches side (World.Alike K p q) (announce c id notice) (announce c id notice) := by
  apply Matches.container
  intro a b hrelated
  rw [congruent.handler hrelated]
  split
  · exact .record _
  · exact .pure ()

end Congruent

end Run

variable {recur recur' : Caller}

theorem Run.Matches.look {β : Type} (c : ContainerRef) {f : Option Container → β}
    (h : ∀ a b, K a b → f (some a) = f (some b)) :
    Run.Matches side (World.Alike K p q) (do return f ((← Run.world).container? c) : Run β)
      (do return f ((← Run.world).container? c)) := by
  apply Run.Matches.world
  intro world world' hworlds
  rcases hworlds.cases_container c with ⟨hleft, hright⟩ | ⟨a, b, hleft, hright, hrelated⟩
  · rw [hleft, hright]
    exact .pure _
  · rw [hleft, hright, h a b hrelated]
    exact .pure _

theorem Request.taggedServices_matches
    (hcall : Caller.Matches side (World.Alike K p q) recur recur') (c : ContainerRef)
    (entries : List (String × Value)) :
    Run.Matches side (World.Alike K p q) (taggedServices recur c entries)
      (taggedServices recur' c entries) :=
  .mapM fun entry _ => (hcall.resolve c entry.1 {}).bind fun _ => .pure _

theorem Request.perform_matches (congruent : Container.Congruent K)
    (hcall : Caller.Matches side (World.Alike K p q) recur recur') (request : Request)
    (hkept : ¬ request.Resets) :
    Run.Matches side (World.Alike K p q) (request.perform recur) (request.perform recur') := by
  cases request with
  | note note => exact .record _
  | allocate className =>
      have hsilent : Run.Matches side (World.Alike K p q)
          (Run.onStore fun store => store.allocate className)
          (Run.onStore fun store => store.allocate className) :=
        .onStore (Store.silent_allocate className)
      exact hsilent
  | properties o =>
      apply Run.Matches.world
      intro world world' hworlds
      obtain ⟨events, -, hstore⟩ := hworlds.store
      rw [hstore]
      exact .pure _
  | setProperty o name value =>
      exact .modify fun _ _ hworlds => (hworlds.silent (Store.silent_setProperty o name value)).2
  | count key =>
      have hsilent : Run.Matches side (World.Alike K p q) (Run.onStore fun store => store.count key)
          (Run.onStore fun store => store.count key) := .onStore (Store.silent_count key)
      exact hsilent
  | get c id options => exact (hcall.get c id options).outcome
  | reference c id => exact (hcall.resolve c id {}).outcome
  | has c id =>
      exact .look c (f := Option.any (Container.has id)) fun _ _ hrelated =>
        congruent.has hrelated id
  | keys c =>
      exact .look c (f := fun held : Option Container => (held.map Container.keys).getD [])
        fun _ _ => congruent.keys
  | parameter c name =>
      refine Run.Matches.outcome (Run.Matches.container fun a b hrelated => ?_)
      rw [congruent.parameter hrelated]
      exact .ofExcept _
  | tagged c tag =>
      refine Run.Matches.outcome (Run.Matches.container fun a b hrelated => ?_)
      rw [congruent.tagged hrelated]
      exact taggedServices_matches hcall c _
  | initialized c id =>
      exact .look c (f := Option.any (Container.initialized id)) fun _ _ hrelated =>
        congruent.initialized hrelated id
  | reset c => exact absurd trivial hkept
  | invoke c f args => exact (hcall.invoke c f args).outcome
  | force l => exact (hcall.force l).outcome

/-- **User code** cannot tell alike worlds apart. -/
theorem Behaviour.run_matches {α : Type} (congruent : Container.Congruent K)
    (hcall : Caller.Matches side (World.Alike K p q) recur recur') (b : Behaviour α)
    (h : b.ResetFree) :
    Run.Matches side (World.Alike K p q) (b.run recur) (b.run recur') := by
  induction b with
  | done result => exact .ofExcept result
  | ask request next ih =>
      exact (request.perform_matches congruent hcall h.1).bind fun reply => ih reply (h.2 reply)

namespace Run

theorem Matches.resolveType (hcall : Caller.Matches side (World.Alike K p q) recur recur')
    (c : ContainerRef) (typeName : String) (candidates : List String) (options : ResolveOptions) :
    Matches side (World.Alike K p q) (resolveType recur c typeName candidates options)
      (resolveType recur' c typeName candidates options) := by
  unfold Run.resolveType
  split
  · exact .fail _
  · exact hcall.resolve c _ options
  · split
    · exact (Matches.mapM fun id _ => hcall.resolve c id options).bind fun _ => .pure _
    · exact .fail _

theorem Matches.callService (hcall : Caller.Matches side (World.Alike K p q) recur recur')
    (c : ContainerRef) (id name : String) (service : Value) (args : CallArgs) :
    Matches side (World.Alike K p q) (callService recur c id name service args)
      (callService recur' c id name service args) := by
  unfold Run.callService
  split
  · exact hcall.invoke c _ args
  · split
    · exact .pure _
    · exact .fail _

theorem Matches.runExtra (hcall : Caller.Matches side (World.Alike K p q) recur recur')
    (c : ContainerRef) (service code : Value) :
    Matches side (World.Alike K p q) (runExtra recur c service code)
      (runExtra recur' c service code) := by
  unfold Run.runExtra
  split
  · exact (hcall.invoke c _ _).bind fun _ => .pure ()
  · exact .pure ()

variable (congruent : Container.Congruent K)

include congruent

theorem Matches.callMethod (hcall : Caller.Matches side (World.Alike K p q) recur recur')
    {catalog : Catalog} (hcatalog : catalog.ResetFree) (id name : String) (service : Value)
    (method : String) (args : CallArgs) :
    Matches side (World.Alike K p q) (callMethod recur catalog id name service method args)
      (callMethod recur' catalog id name service method args) := by
  unfold Run.callMethod
  split
  · exact Behaviour.run_matches congruent hcall _ (hcatalog.callMethod id _ method args)
  · exact .fail _

theorem Matches.bindMember (hcall : Caller.Matches side (World.Alike K p q) recur recur')
    {catalog : Catalog} (hcatalog : catalog.ResetFree) (id : String) (service : Value)
    (name : String) {value other : Run Value}
    (hvalue : Matches side (World.Alike K p q) value other) :
    Matches side (World.Alike K p q) (bindMember recur catalog id service name value)
      (bindMember recur' catalog id service name other) := by
  unfold Run.bindMember
  split
  · exact hvalue.bind fun value =>
      Behaviour.run_matches congruent hcall _ (hcatalog.applyMember _ name value)
  · exact .fail _

theorem Matches.decorate (hcall : Caller.Matches side (World.Alike K p q) recur recur')
    (c : ContainerRef) {decorators : List Decorator}
    (h : ∀ decorator ∈ decorators, ∀ c service, (decorator.apply c service).ResetFree)
    (service : Value) :
    Matches side (World.Alike K p q) (decorate recur c decorators service)
      (decorate recur' c decorators service) :=
  .foldlM (fun decorator hmem service =>
    Behaviour.run_matches congruent hcall _ (h decorator hmem c service)) service

end Run

namespace Call

variable (congruent : Container.Congruent K)

include congruent

theorem matches_invoke (hcall : Caller.Matches side (World.Alike K p q) recur recur')
    (c : ContainerRef) (f : CallableRef) (args : CallArgs) :
    Run.Matches side (World.Alike K p q) (step recur (.invoke c f args))
      (step recur' (.invoke c f args)) := by
  apply Run.Matches.world
  intro world world' hworlds
  obtain ⟨events, -, hstore⟩ := hworlds.store
  have hsame : world'.store.codeOf? f = world.store.codeOf? f := by
    rw [hstore]
    rfl
  rw [hsame]
  cases hcode : world.store.codeOf? f with
  | none => exact .pure _
  | some body =>
      apply Behaviour.run_matches congruent hcall _
      exact hworlds.code body (Array.mem_of_getElem? hcode) c args

omit congruent in
theorem matches_forceHandle (hcall : Caller.Matches side (World.Alike K p q) recur recur')
    (l : LazyRef) :
    Run.Matches side (World.Alike K p q) (forceHandle recur l) (forceHandle recur' l) := by
  apply Run.Matches.world
  intro world world' hworlds
  have hcell : world'.store.cell l = world.store.cell l := by
    obtain ⟨events, -, hstore⟩ := hworlds.store
    rw [hstore]
    rfl
  have hpresent : ∀ c, (world'.container? c).isSome = (world.container? c).isSome := by
    intro c
    rcases hworlds.cases_container c with ⟨hleft, hright⟩ | ⟨a, b, hleft, hright, -⟩
    · rw [hleft, hright]
    · rw [hleft, hright]
      rfl
  simp only [hcell, hpresent]
  split
  · exact .pure _
  · split
    · exact .fail _
    · exact (hcall.resolve _ _ {}).bind fun value => .onStore (Store.silent_settle l value)

theorem matches_tearDown (hcall : Caller.Matches side (World.Alike K p q) recur recur')
    {catalog : Catalog} (hcatalog : catalog.ResetFree) (service : Value) :
    Run.Matches side (World.Alike K p q) (tearDown recur catalog service)
      (tearDown recur' catalog service) := by
  unfold tearDown
  split
  · next teardown hteardown =>
      obtain ⟨o, -, hdeclared⟩ := Option.bind_eq_some_iff.mp hteardown
      refine Run.Matches.bind ?_ fun _ => .pure ()
      exact (Behaviour.run_matches congruent hcall _ (hcatalog.teardown hdeclared)).outcome
  · exact .pure ()

/-- A reset after the caches were read: they are emptied, and what was in them is torn down. -/
def sweep (recur : Caller) (c : ContainerRef) (catalog : Catalog) (services : List Value) :
    Run Unit := do
  Run.changeContainer c Container.clearCache
  services.forM (tearDown recur catalog)
  Run.changeContainer c Container.clearRuntimeState

omit congruent in
theorem resetContainer_eq (recur : Caller) (c : ContainerRef) :
    resetContainer recur c =
      Run.container c >>= fun container => sweep recur c container.catalog container.cached := rfl

theorem matches_sweep (hcall : Caller.Matches side (World.Alike K p q) recur recur')
    {catalog : Catalog} (hcatalog : catalog.ResetFree) (c : ContainerRef) (services : List Value) :
    Run.Matches side (World.Alike K p q) (sweep recur c catalog services)
      (sweep recur' c catalog services) := by
  refine (Run.Matches.changeContainer fun _ _ => congruent.clearCache).bind fun _ => ?_
  refine Run.Matches.bind ?_ fun _ => .changeContainer fun _ _ => congruent.clearRuntimeState
  exact .forM fun service _ => matches_tearDown congruent hcall hcatalog service

end Call

end Asking
end Wiring
