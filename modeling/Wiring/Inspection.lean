import Wiring.Builder
import Wiring.Decimal.Layout
import Wiring.Text.Quoted

/-!
Texts that show a reader what a thing holds.
-/

namespace Wiring

open Text

def quotedList (names : List String) : String := listed (names.map quoted)

mutual

def Value.inspect (store : Store) : Value → String
  | .null => "Null"
  | .bool b => "Bool(" ++ toString b ++ ")"
  | .int n => "Int(" ++ toString n.toInt ++ ")"
  | .float x => "Float(" ++ Decimal.Layout.plain.text x ++ ")"
  | .str text => "Str(" ++ quoted text ++ ")"
  | .list items => listed (Value.inspectItems store items)
  | .map entries => mapped (Value.inspectEntries store entries)
  | .object o =>
      record "Instance" [("class", quoted o.className),
        ("properties", quotedList (store.properties o).keys)]
  | .callable f =>
      record "Invocable" [("name", quoted f.name), ("returns", quotedList f.returns)] true
  | .handle l =>
      record "LazyService" [("id", quoted l.target),
        ("initialized", toString (store.cell l).value.isSome)]

def Value.inspectItems (store : Store) : List Value → List String
  | [] => []
  | item :: rest => Value.inspect store item :: Value.inspectItems store rest

def Value.inspectEntries (store : Store) : List (String × Value) → List (String × String)
  | [] => []
  | (key, value) :: rest =>
      (quoted key, Value.inspect store value) :: Value.inspectEntries store rest

end

def ClassSpec.inspect (spec : ClassSpec) : String :=
  record "ClassSpec" [("name", quoted spec.name), ("is_abstract", toString spec.isAbstract),
    ("implements", quotedList spec.implements), ("params", quotedList spec.params),
    ("methods", quotedList spec.methods.keys)] true

def AliasTable.inspect (table : AliasTable) : String :=
  record "AliasTable" [("aliases", mapped (table.targets.entries.map fun entry =>
    (quoted entry.1, quoted entry.2)))]

def TypeIndex.inspect (index : TypeIndex) : String :=
  record "TypeIndex" [("types", mapped (index.entries.map fun entry =>
      (quoted entry.1, quotedList entry.2))),
    ("excluded", setOf (index.excluded.keys.map quoted))]

def Registry.inspect (registry : Registry) : String :=
  record "ServiceRegistry" [("definitions", quotedList registry.definitions.keys),
    ("aliases", registry.aliases.inspect), ("types", registry.types.inspect),
    ("parameters", quotedList registry.parameters.keys),
    ("providers", quotedList (registry.providers.map Provider.name))] true

def Config.inspect (config : Config) : String :=
  record "ContainerConfig" [
    ("resolver", record "ResolverConfig" [("max_depth", toString config.maxDepth)]),
    ("compiler", record "CompilerConfig" [("container_class", quoted config.containerClass),
      ("pretty", toString config.pretty)])]

def Builder.inspect (builder : Builder) : String :=
  record "ContainerBuilder" [("registry", builder.registry.inspect),
    ("config", builder.config.inspect)] true

def Container.inspect : Container → String
  | .interpreting c =>
      record "Container" [("registry", c.registry.inspect),
        ("services", quotedList c.services.keys)] true
  | .running c =>
      record "CompiledContainer" [("container_class", quoted c.program.containerClass),
        ("routines", toString c.program.routines.length),
        ("services", quotedList c.services.keys)] true

end Wiring
