import Wiring.Proofs.Effects

/-!
# Compiling again

Every compilation runs the hooks of all providers once more, and what they register stays. The next
compilation comes to the same program where the contents are the same again after its hooks. So it is
with hooks that only put things in their place, and change only what they have put there themselves.
A hook that decorates a service of others decorates it once for every compilation.
-/

namespace Wiring

/-! ### Hooks that can be repeated -/

/-- What a provider keeps of its configuration. -/
def Registration.keeping (name : String) (config : Value) : List Registration :=
  if config.isVacant then []
  else [.set (name ++ ".config") (.ofValue config), .parameter name config]

/-- The hook performs these single registrations one after the other and fails with the first one
that does. Providers that it registers have nothing to do before a compilation. -/
inductive Hook.Performs : Hook → List Registration → Prop
  | done : Performs .done []
  | record {next : Hook} {ops : List Registration} (event : Event) :
      next.Performs ops → Performs (.record event next) ops
  | perform {step : Registration} {next : Except Error Unit → Hook} {ops : List Registration} :
      step.Single → (next (.ok ())).Performs ops → (∀ error, next (.error error) = .fail error) →
        Performs (.perform step next) (step :: ops)
  | install {name : String} {register : Value → Hook} {beforeCompile : Hook} {config : Value}
      {next : Except Error Unit → Hook} {registered ops : List Registration} :
      (register config).Performs registered → beforeCompile.Performs [] →
        (next (.ok ())).Performs ops → (∀ error, next (.error error) = .fail error) →
          Performs (.perform (.provider (.mk name register beforeCompile) config) next)
            (Registration.keeping name config ++ registered ++ ops)

/-- The hooks of the providers, in turn, perform these registrations. -/
inductive Provider.AllPerform : List Provider → List Registration → Prop
  | nil : AllPerform [] []
  | cons {provider : Provider} {rest : List Provider} {ops others : List Registration} :
      provider.beforeCompile.Performs ops → AllPerform rest others →
        AllPerform (provider :: rest) (ops ++ others)

theorem Provider.AllPerform.append_idle {providers idle : List Provider} {ops : List Registration}
    (h : AllPerform providers ops) (hidle : ∀ provider ∈ idle, provider.beforeCompile.Performs []) :
    AllPerform (providers ++ idle) ops := by
  induction h with
  | nil =>
      induction idle with
      | nil => exact .nil
      | cons provider rest ih =>
          rw [List.forall_mem_cons] at hidle
          exact .cons hidle.1 (ih hidle.2)
  | cons hfirst _ ih => exact .cons hfirst ih

namespace Registry

open Registering

/-- The registrations succeed one after the other and lead from one registry to the other, where idle
providers are added in between. -/
inductive Led : List Registration → Registry → Registry → Prop
  | nil (registry : Registry) : Led [] registry registry
  | performed {op : Registration} {rest : List Registration} {registry last : Registry}
      {store : Store} {later : Setup} : op.Single →
        op.run.run ⟨registry, store⟩ = (.ok (), later) → Led rest later.registry last →
          Led (op :: rest) registry last
  | added {ops : List Registration} {registry last : Registry} (provider : Provider) :
      provider.beforeCompile.Performs [] → Led ops (registry.addProvider provider) last →
        Led ops registry last

namespace Led

variable {ops others : List Registration} {registry middle last : Registry}

theorem append (first : Led ops registry middle) (second : Led others middle last) :
    Led (ops ++ others) registry last := by
  induction first with
  | nil => exact second
  | performed hsingle hrun _ ih => exact .performed hsingle hrun (ih second)
  | added provider hidle _ ih => exact .added provider hidle (ih second)

theorem keepConfig {name : String} {config : Value} {changed : Registry}
    (hkept : registry.keepConfig name config = .ok changed) :
    Led (Registration.keeping name config) registry changed := by
  unfold Registration.keeping
  rcases keepConfig_eq_ok hkept with ⟨hvacant, rfl⟩ | ⟨hvacant, registered, hset, rfl⟩
  · rw [hvacant]
    exact .nil changed
  · have hrun : (Registration.set (name ++ ".config") (.ofValue config)).run.run
        ⟨registry, default⟩ = (.ok (), ⟨registered, default⟩) := by
      rw [Registration.run, run_change]
      dsimp only
      rw [hset]
    have hkeeps : (Registration.parameter name config).run.run ⟨registered, default⟩ =
        (.ok (), ⟨registered.setParameter name config, default⟩) := rfl
    rw [hvacant]
    exact .performed trivial hrun (.performed trivial hkeeps (.nil _))

theorem nil_inv (h : Led [] registry last) : last.content = registry.content := by
  generalize hops : ([] : List Registration) = ops at h
  induction h with
  | nil => rfl
  | performed => cases hops
  | added _ _ _ ih => exact ih hops

theorem cons_inv {op : Registration} (h : Led (op :: ops) registry last) :
    ∃ (setup later : Setup), setup.registry.content = registry.content ∧
      op.run.run setup = (.ok (), later) ∧ Led ops later.registry last := by
  generalize hops : op :: ops = all at h
  induction h with
  | nil => cases hops
  | performed _ hrun hrest =>
      cases hops
      exact ⟨_, _, rfl, hrun, hrest⟩
  | added _ _ _ ih => exact ih hops

end Led

end Registry

/-- A step that fails makes the hook fail. -/
theorem Hook.perform_eq_ok {step : Registration} {next : Except Error Unit → Hook}
    (hfail : ∀ error, next (.error error) = .fail error) {setup last : Setup}
    (hrun : (Hook.perform step next).run.run setup = (.ok (), last)) :
    ∃ later, step.run.run setup = (.ok (), later) ∧
      (next (.ok ())).run.run later = (.ok (), last) := by
  obtain ⟨result, later, hstep, hrest⟩ := Registering.bind_eq_ok hrun
  cases result with
  | ok => exact ⟨later, Registering.outcome_eq_ok hstep, hrest⟩
  | error error =>
      rw [hfail] at hrest
      cases hrest

theorem Hook.Performs.led {hook : Hook} {ops : List Registration} (h : hook.Performs ops)
    {setup last : Setup} (hrun : hook.run.run setup = (.ok (), last)) :
    Registry.Led ops setup.registry last.registry := by
  induction h generalizing setup last with
  | done =>
      cases hrun
      exact .nil _
  | record event _ ih =>
      obtain ⟨⟨⟩, later, hrecord, hrest⟩ := Registering.bind_eq_ok hrun
      have hled := ih hrest
      cases hrecord
      exact hled
  | perform hsingle _ hfail ih =>
      obtain ⟨later, hstep, hrest⟩ := Hook.perform_eq_ok hfail hrun
      exact .performed hsingle hstep (ih hrest)
  | install _ hidle _ hfail ihregister _ ih =>
      obtain ⟨later, hinstall, hrest⟩ := Hook.perform_eq_ok hfail hrun
      obtain ⟨⟨⟩, kept, hkept, hinstall⟩ := Registering.bind_eq_ok hinstall
      obtain ⟨⟨⟩, registered, hregister, hadd⟩ := Registering.bind_eq_ok hinstall
      have hled := (Registry.Led.keepConfig (Registering.change_eq_ok hkept)).append
        (ihregister hregister)
      have hrest := ih hrest
      cases hadd
      exact hled.append (.added (.mk ..) hidle hrest)

theorem Provider.AllPerform.led {providers : List Provider} {ops : List Registration}
    (h : AllPerform providers ops) {setup last : Setup}
    (hrun : (providers.forM fun provider => provider.beforeCompile.run).run setup =
      (.ok (), last)) : Registry.Led ops setup.registry last.registry := by
  induction h generalizing setup with
  | nil =>
      cases hrun
      exact .nil _
  | cons hfirst _ ih =>
      obtain ⟨⟨⟩, later, hhook, hrest⟩ := Registering.bind_eq_ok hrun
      exact (hfirst.led hhook).append (ih hrest)

namespace Registry

open Registering

theorem keeps_providers (providers : List Provider) {op : Registration} (hsingle : op.Single) :
    Keeps (·.providers = providers) op.run := by
  have hset {id : String} {definition : Definition} (registry changed : Registry)
      (h : registry.providers = providers) (hset : registry.set id definition = .ok changed) :
      changed.providers = providers := by
    obtain ⟨-, rfl⟩ := set_eq_ok hset
    exact h
  have hupdate {id : String} {change : Definition → Definition} (registry changed : Registry)
      (h : registry.providers = providers) (hupdate : registry.update id change = .ok changed) :
      changed.providers = providers := by
    obtain ⟨definition, -, -, rfl⟩ := update_eq_ok hupdate
    exact h
  have hdecorate {id : String} {decorator : Decorator} (registry changed : Registry)
      (h : registry.providers = providers)
      (hdecorate : registry.decorate id decorator = .ok changed) :
      changed.providers = providers := by
    obtain ⟨definition, -, -, rfl⟩ := decorate_eq_ok hdecorate
    exact h
  have halias {name target : String} (registry changed : Registry)
      (h : registry.providers = providers) (halias : registry.addAlias name target = .ok changed) :
      changed.providers = providers := by
    obtain ⟨aliases, -, rfl⟩ := addAlias_eq_ok halias
    exact h
  cases op with
  | set id definition => exact .change hset
  | autowire id definition types => exact .change hset
  | update id change => exact .change hupdate
  | decorate id decorator => exact .change hdecorate
  | addAlias name target => exact .change halias
  | provider provider config => exact hsingle.elim
  | _ => exact fun _ h => h

namespace Led

variable {ops : List Registration} {registry last : Registry}

/-- Only idle providers have come to those that were there. -/
theorem providers_eq (h : Led ops registry last) : ∃ idle,
    last.providers = registry.providers ++ idle ∧
      ∀ provider ∈ idle, provider.beforeCompile.Performs [] := by
  induction h with
  | nil => exact ⟨[], (List.append_nil _).symm, fun _ hmem => absurd hmem List.not_mem_nil⟩
  | @performed op rest registry last store later hsingle hrun _ ih =>
      have hkept := keeps_providers registry.providers hsingle ⟨registry, store⟩ rfl
      rw [hrun] at hkept
      rwa [hkept] at ih
  | added provider hidle _ ih =>
      obtain ⟨idle, hproviders, hall⟩ := ih
      refine ⟨provider :: idle, ?_, List.forall_mem_cons.mpr ⟨hidle, hall⟩⟩
      rw [hproviders, addProvider, List.append_assoc, List.singleton_append]

/-- What registrations that can be repeated make of the contents is the same for every registry. -/
theorem exists_effect {made : List String} {before : Contents → Contents}
    (hbefore : Contents.Settles made before) (hrepeat : Registration.AllRepeat made ops) :
    ∃ effect made', Contents.Settles made' effect ∧
      ∀ (held : Contents) (registry last : Registry), registry.content = before held →
        Led ops registry last → last.content = effect held := by
  induction ops generalizing made before with
  | nil =>
      refine ⟨before, made, hbefore, fun held registry last hheld hled => ?_⟩
      rw [hled.nil_inv, hheld]
  | cons op rest ih =>
      obtain ⟨performing, heffect, hperformed⟩ := hbefore.performed hrepeat.1
      obtain ⟨effect, made', hsettles, hlast⟩ := ih hperformed hrepeat.2
      refine ⟨effect, made', hsettles, fun held registry last hheld hled => ?_⟩
      obtain ⟨setup, later, hsetup, hrun, hrest⟩ := hled.cons_inv
      refine hlast held later.registry last ?_ hrest
      rw [content_performed heffect hrun, hsetup, hheld]

end Led

/-- The hooks of the providers leave what they would leave again. -/
theorem content_again {first second third : Registry} {ops : List Registration}
    (hrepeat : Registration.AllRepeat [] ops) (once : Led ops first second)
    (again : Led ops second third) : third.content = second.content := by
  have hnothing : Contents.Settles [] fun held => held :=
    ⟨fun _ hid => absurd hid List.not_mem_nil, fun _ => .inr fun _ => rfl⟩
  obtain ⟨effect, made, hsettles, hlast⟩ := Led.exists_effect hnothing hrepeat
  rw [hlast second.content second third rfl again, hlast first.content first second rfl once,
    hsettles.twice]

theorem led_beforeCompile {registry : Registry} {ops : List Registration}
    (h : Provider.AllPerform registry.providers ops) {store : Store} {last : Setup}
    (hrun : beforeCompile.run ⟨registry, store⟩ = (.ok (), last)) :
    Led ops registry last.registry :=
  h.led hrun

end Registry

namespace Builder

/-- **Compiling again comes to the same program** where the hooks leave the contents as they found
them the second time; and so they do where they put everything that they change. -/
theorem compiled_again {builder again last : Builder} {store stored store' stored' : Store}
    {program program' : Program} (first : builder.compile store = (.ok program, again, stored))
    (second : again.compile store' = (.ok program', last, stored')) :
    ((∀ item, last.registry.content item = again.registry.content item) → program' = program) ∧
      ∀ ops, Provider.AllPerform builder.registry.providers ops → Registration.AllRepeat [] ops →
        program' = program := by
  obtain ⟨setup, hhooks, rfl, hcompile⟩ := compile_eq_ok first
  obtain ⟨setup', hhooks', rfl, hcompile'⟩ := compile_eq_ok second
  have hsame (same : ∀ item, setup'.registry.content item = setup.registry.content item) :
      program' = program := by
    have hprograms := Registry.compile_unordered same builder.config
    rw [hcompile, hcompile'] at hprograms
    exact Except.ok.inj hprograms
  refine ⟨hsame, fun ops hperform hrepeat => hsame fun item => ?_⟩
  have once := Registry.led_beforeCompile hperform hhooks
  obtain ⟨idle, hproviders, hidle⟩ := once.providers_eq
  have hperform' : Provider.AllPerform setup.registry.providers ops := by
    rw [hproviders]
    exact hperform.append_idle hidle
  have twice := Registry.led_beforeCompile hperform' hhooks'
  exact congrFun (Registry.content_again hrepeat once twice) item

end Builder

/-! ### Builders that prepare something -/

/-- Performs the registrations one after the other and fails with the first one that does. -/
def Hook.performing : List Registration → Hook
  | [] => .done
  | op :: rest => .perform op fun
      | .ok () => performing rest
      | .error error => .fail error

namespace Hook.Performs

variable {rest ops : List Registration}

theorem single {op : Registration} (hsingle : op.Single)
    (h : (Hook.performing rest).Performs ops) :
    (Hook.performing (op :: rest)).Performs (op :: ops) :=
  .perform hsingle h fun _ => rfl

theorem idle (name : String) (config : Value) (h : (Hook.performing rest).Performs ops) :
    (Hook.performing (.provider (.mk name (fun _ => .done) .done) config :: rest)).Performs
      (Registration.keeping name config ++ ops) := by
  rw [← List.append_nil (Registration.keeping name config)]
  exact .install .done .done h fun _ => rfl

end Hook.Performs

namespace Builder

def sameDecorator (name : String) : Decorator := ⟨name, fun _ value => return value⟩

/-- A service `a`, and a provider that performs these before each compilation. -/
def preparing (ops : List Registration) : Builder :=
  let a := Registration.set "a" (.ofValue (.int 1))
  let hooked := Registration.provider (.mk "p" (fun _ => .done) (.performing ops)) .null
  { registry := hooked.after (a.after ∅ {}) {} }

def program (builder : Builder) : Program := (builder.compile {}).1.toOption.getD default

def afterwards (builder : Builder) : Builder := (builder.compile {}).2.1

def warming : List Registration :=
  [.set "warm" (.ofValue (.int 2)), .decorate "warm" (sameDecorator "twice"), .tag "a" "t" .null,
    .provider (.mk "idle" (fun _ => .done) .done) (.int 3)]

/-- What `warming` comes to, one by one. -/
def warmed : List Registration :=
  [.set "warm" (.ofValue (.int 2)), .decorate "warm" (sameDecorator "twice"), .tag "a" "t" .null,
    .set "idle.config" (.ofValue (.int 3)), .parameter "idle" (.int 3)]

/-- A hook that puts its own service and registers an idle provider, once more for each compilation. -/
theorem warming_compiled_again :
    Provider.AllPerform (preparing warming).registry.providers warmed ∧
      Registration.AllRepeat [] warmed ∧
      (preparing warming).compile {} =
        (.ok (preparing warming).program, (preparing warming).afterwards, {}) ∧
      (preparing warming).afterwards.compile {} =
        (.ok (preparing warming).afterwards.program, (preparing warming).afterwards.afterwards, {}) ∧
      (preparing warming).afterwards.registry.providers.length = 2 ∧
      (preparing warming).program.routines.map (·.decorators.map (·.name)) =
        [[], [], ["twice"]] ∧
      (preparing warming).afterwards.program = (preparing warming).program := by
  have hdone : (Hook.performing []).Performs [] := .done
  have hwarming : (Hook.performing warming).Performs warmed :=
    .single trivial (.single trivial (.single trivial (.idle "idle" (.int 3) hdone)))
  have hperform : Provider.AllPerform (preparing warming).registry.providers (warmed ++ []) :=
    .cons hwarming .nil
  have hrepeat : Registration.AllRepeat [] (warmed ++ []) :=
    ⟨trivial, List.mem_cons_self, trivial, trivial, trivial, trivial⟩
  have hfirst : (preparing warming).compile {} =
      (.ok (preparing warming).program, (preparing warming).afterwards, {}) := rfl
  have hsecond : (preparing warming).afterwards.compile {} =
      (.ok (preparing warming).afterwards.program, (preparing warming).afterwards.afterwards, {}) :=
    rfl
  exact ⟨hperform, hrepeat, hfirst, hsecond, rfl, rfl,
    (compiled_again hfirst hsecond).2 (warmed ++ []) hperform hrepeat⟩

/-- A hook that decorates the service of another: it is decorated once more in each program. -/
theorem decorations_accumulate :
    let builder := preparing [.decorate "a" (sameDecorator "twice")]
    builder.compile {} = (.ok builder.program, builder.afterwards, {}) ∧
      builder.afterwards.compile {} =
        (.ok builder.afterwards.program, builder.afterwards.afterwards, {}) ∧
      builder.program.routines.map (·.decorators.map (·.name)) = [["twice"]] ∧
      builder.afterwards.program.routines.map (·.decorators.map (·.name)) = [["twice", "twice"]] ∧
      builder.afterwards.program ≠ builder.program := by
  have honce : (preparing [.decorate "a" (sameDecorator "twice")]).program.routines.map
      (·.decorators.map (·.name)) = [["twice"]] := rfl
  have htwice : (preparing [.decorate "a" (sameDecorator "twice")]).afterwards.program.routines.map
      (·.decorators.map (·.name)) = [["twice", "twice"]] := rfl
  refine ⟨rfl, rfl, honce, htwice, fun hsame => ?_⟩
  rw [hsame, honce] at htwice
  cases htwice

end Builder
end Wiring
