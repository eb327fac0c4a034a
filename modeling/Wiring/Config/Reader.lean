import Wiring.Config
import Wiring.Json.Record
import Wiring.Toml.Reader

/-!
Reading configuration from JSON text, from TOML text, and from files of either kind. What is missing
keeps its default; what is read has to be acceptable.
-/

namespace Wiring

/-- How a format shows records and plain values. -/
structure TreeView (α : Type) where
  record? : List String → α → Option (List (String × α))
  nat? : α → Option Nat
  bool? : α → Option Bool
  text? : α → Option String

def Json.Document.view : TreeView Json.Document := ⟨record?, nat?, bool?, text?⟩

def Toml.view : TreeView Toml := ⟨record?, nat?, bool?, text?⟩

namespace Config

/-- The default where nothing is given, and no value where what is given does not fit. -/
def given? {α β : Type} (fallback : β) (read : α → Option β) : Option α → Option β
  | none => some fallback
  | some tree => read tree

def ofTree? {α : Type} (view : TreeView α) (tree : α) : Option Config := do
  let sections ← view.record? ["resolver", "compiler"] tree
  let resolver ← given? [] (view.record? ["max_depth"]) (sections.lookup "resolver")
  let compiler ← given? [] (view.record? ["container_class", "pretty"]) (sections.lookup "compiler")
  let fallback : Config := {}
  return {
    maxDepth := ← given? fallback.maxDepth view.nat? (resolver.lookup "max_depth")
    containerClass :=
      ← given? fallback.containerClass view.text? (compiler.lookup "container_class")
    pretty := ← given? fallback.pretty view.bool? (compiler.lookup "pretty") }

def validated (config : Config) : Except ConfigError Config := do
  config.validate
  return config

def ofJson (text : String) : Except ConfigError Config :=
  match (Json.Document.parse? text).bind (ofTree? Json.Document.view) with
  | some config => config.validated
  | none => .error .malformedJson

def ofToml (text : String) : Except ConfigError Config :=
  match (Toml.read? text).bind (ofTree? Toml.view) with
  | some config => config.validated
  | none => .error .malformedToml

/-- What follows the last dot of a file's name; a dot in front starts no extension. -/
def extension? (path : String) : Option String :=
  let name := ((path.splitOn "/").filter fun part => !part.isEmpty).getLast?.getD ""
  match name.splitOn "." with
  | [] => none
  | [_] => none
  | ["", _] => none
  | parts => if name = ".." then none else parts.getLast?

/-- The file is read first, then its name says how. -/
def ofFile (path : String) (content : Option ByteArray) : Except ConfigError Config :=
  match content.bind String.fromUTF8? with
  | none => .error .unreadableFile
  | some text =>
      match extension? path with
      | some "toml" => ofToml text
      | some "json" => ofJson text
      | _ => .error (.unsupportedFormat path)

end Config
end Wiring
