import Wiring.Builder
import Wiring.Proofs.EagerGraph

/-!
# What compiling leaves

A program has one routine for each definition, at the definition's place in ascending order of the
ids. Everything that a routine demands passed its check, and following what is demanded comes to an
end.
-/

namespace Wiring

/-- The routine of a registered id. -/
def Registry.linked (registry : Registry) (config : Config) (id : String) : Routine :=
  ((registry.definition? id).map fun definition =>
    definition.linked (registry.plan config) id).getD default

theorem Registry.linked_eq {registry : Registry} {id : String} {definition : Definition}
    (hfound : registry.definition? id = some definition) (config : Config) :
    registry.linked config id = definition.linked (registry.plan config) id := by
  rw [linked, hfound]
  rfl

/-- What is known of a program and the registry that it was compiled from. -/
structure Registry.Compiled (registry : Registry) (config : Config) (program : Program) : Prop where
  program_eq : program = .ofRoutines (registry.plan config) config.containerClass
    ((registry.plan config).ids.map (registry.linked config))
  met : ∀ {id : String} {definition : Definition}, registry.definition? id = some definition →
    ∀ demand ∈ definition.demands (registry.plan config).candidates,
      ∃ found, (registry.plan config).settle id demand = .ok found
  grounded : ∀ {id : String}, registry.contains id → Acc (flip (registry.plan config).Edge) id

namespace Registry

variable {registry : Registry} {config : Config} {program : Program}

theorem compiled_of_compile (hcompile : registry.compile config = .ok program) :
    registry.Compiled config program := by
  obtain ⟨finished, settled, hall, rfl⟩ := compile_eq_ok hcompile
  have hkeys : finished.keys = (registry.plan config).ids := by
    refine eq_of_ascending_of_mem_iff finished.ascending
      (Plan.ids_ascending registry config.maxDepth) fun id => ?_
    rw [← Dict.contains_iff, hall, Plan.mem_ids_iff]
  have hroutines : finished.entries.map Prod.snd =
      (registry.plan config).ids.map (registry.linked config) := by
    rw [← hkeys, Dict.keys, Entries.keys, List.map_map]
    apply List.map_congr_left
    intro entry hentry
    obtain ⟨definition, hfound, hlinked⟩ := settled.linked (Dict.mem_entries_iff.mp hentry)
    have hregistered : registry.definition? entry.1 = some definition := hfound
    rw [Function.comp, linked_eq hregistered, hlinked]
  exact {
    program_eq := by rw [hroutines]
    met := fun {id definition} hfound demand hdemand => by
      have hcontains : finished.contains id :=
        (hall id).mpr (Option.isSome_of_eq_some hfound)
      obtain ⟨found, hsettle, -⟩ := settled.met hcontains hfound demand hdemand
      exact ⟨found, hsettle⟩
    grounded := fun hcontains => settled.grounded ((hall _).mpr hcontains) }

namespace Compiled

variable (compiled : registry.Compiled config program)

include compiled

theorem routines_eq : program.routines =
    (registry.plan config).ids.map (registry.linked config) := by
  rw [compiled.program_eq]
  rfl

theorem parameters_eq : program.parameters = registry.parameters := by
  rw [compiled.program_eq]
  rfl

theorem routine_at {position : Nat} {id : String}
    (hposition : (registry.plan config).ids[position]? = some id) :
    ∃ definition, registry.definition? id = some definition ∧
      program.routines[position]? = some (definition.linked (registry.plan config) id) := by
  have hid : registry.contains id :=
    (Plan.mem_ids_iff registry config.maxDepth).mp (List.mem_of_getElem? hposition)
  obtain ⟨definition, hfound⟩ : ∃ definition, registry.definition? id = some definition :=
    Option.isSome_iff_exists.mp hid
  refine ⟨definition, hfound, ?_⟩
  rw [compiled.routines_eq, List.getElem?_map, hposition, Option.map_some, linked_eq hfound]

end Compiled

end Registry

/-- Hooks come before compiling and may change the registry; what they leave is compiled. -/
theorem Builder.compile_eq_ok {builder built : Builder} {store started : Store} {program : Program}
    (hbuild : builder.compile store = (.ok program, built, started)) :
    ∃ setup, Registry.beforeCompile.run ⟨builder.registry, store⟩ = (.ok (), setup) ∧
      built = { builder with registry := setup.registry } ∧
      setup.registry.compile builder.config = .ok program := by
  unfold Builder.compile at hbuild
  generalize hrun : (Registering.compile builder.config).run ⟨builder.registry, store⟩ = ran at hbuild
  obtain ⟨result, last⟩ := ran
  cases hbuild
  obtain ⟨⟨⟩, setup, hhooks, hcompile⟩ := Registering.bind_eq_ok hrun
  obtain rfl : setup = last := congrArg Prod.snd hcompile
  exact ⟨setup, hhooks, rfl, congrArg Prod.fst hcompile⟩

end Wiring
