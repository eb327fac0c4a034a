import Wiring.Json

/-!
What can go wrong: causes, the sentence each is told in, and the report that user code and callers
receive.

Errors found while a definition is compiled carry its id. `Error.within` adds that annotation once:
an error that has one keeps it.
-/

namespace Wiring

/-- Why a configuration is refused although it is well formed. -/
inductive Violation where
  | zeroDepth
  | blankClass
  | stated (message : String)
deriving DecidableEq, Inhabited, Repr

namespace Violation

def message : Violation → String
  | zeroDepth => "resolver.max_depth 必须大于 0"
  | blankClass => "compiler.container_class 不能为空"
  | stated message => message

end Violation

inductive ConfigError where
  | unreadableFile
  | malformedToml
  | malformedJson
  | unsupportedFormat (path : String)
  | invalid (violation : Violation)
deriving DecidableEq, Inhabited, Repr

namespace ConfigError

def kind : ConfigError → String
  | unreadableFile => "FileReadError"
  | malformedToml => "ParseError"
  | malformedJson => "SerializationError"
  | unsupportedFormat _ => "UnsupportedFormat"
  | invalid _ => "ValidationError"

def message : ConfigError → String
  | unreadableFile => "配置文件读取失败"
  | malformedToml => "配置解析失败"
  | malformedJson => "配置序列化失败"
  | unsupportedFormat path => "不支持的配置文件格式: " ++ path
  | invalid violation => "配置验证失败: " ++ violation.message

/-- The texts of unreadable files and malformed documents depend on the machine and are left out,
and so is the text on a file whose path does. -/
def report (error : ConfigError) : Json :=
  let told := Json.obj [("error", .str error.kind), ("message", .str error.message)]
  let untold := Json.obj [("error", .str error.kind)]
  match error with
  | .invalid _ => told
  | .unsupportedFormat path => if path.startsWith "/" then untold else told
  | _ => untold

end ConfigError

/-- Why an entity cannot become a service. -/
inductive Fault where
  | abstractClass (className : String)
  | noConstructor (className : String)
  | tooManyArguments (className : String) (accepted : Nat)
  | noMethod (className method : String)
  | notCallable (service : String)
  | notObject (service : String)
  | notBindable (member : String)
  | stated (reason : String)
deriving DecidableEq, Inhabited, Repr

namespace Fault

def reason : Fault → String
  | abstractClass className => "类 " ++ className ++ " 是抽象类型, 无法实例化"
  | noConstructor className =>
      "无法传递参数, 类 " ++ className ++ " 没有构造函数或构造函数不公开"
  | tooManyArguments className accepted =>
      "类 " ++ className ++ " 最多接受 " ++ toString accepted ++ " 个位置参数"
  | noMethod className method => "类 " ++ className ++ " 没有方法 " ++ method
  | notCallable service => "服务 " ++ service ++ " 不可调用"
  | notObject service => "服务 " ++ service ++ " 不是对象"
  | notBindable member => "无法在非对象服务上绑定 " ++ member
  | stated reason => reason

end Fault

inductive Error where
  | notFound (id : String)
  | circularReference (id : String) (path : List String)
  | frozenConflict (id : String)
  | ambiguousType (typeName : String) (ids : List String)
  | invalidEntity (id : String) (fault : Fault)
  | compilation (id : String) (source : Error)
  | aliasToItself (id : String)
  | parameterNotFound (name : String)
  | resolutionDepthExceeded (id : String) (maxDepth : Nat)
  | containerDropped (id : String)
  | emission (message : String)
  | config (error : ConfigError)
deriving DecidableEq, Inhabited, Repr

namespace Error

def message : Error → String
  | notFound id => "服务未定义: \"" ++ id ++ "\""
  | circularReference id path =>
      "检测到服务 \"" ++ id ++ "\" 的循环引用, 路径: \"" ++ " -> ".intercalate path ++ "\""
  | frozenConflict id => "服务 \"" ++ id ++ "\" 已被解析并冻结, 不能再修改"
  | ambiguousType typeName ids => "类型 " ++ typeName ++ " 对应多个服务: " ++ ", ".intercalate ids
  | invalidEntity id fault => "服务 \"" ++ id ++ "\" 的实体无法实例化: " ++ fault.reason
  | compilation id source => "编译服务 \"" ++ id ++ "\" 失败: " ++ source.message
  | aliasToItself id => "[" ++ id ++ "] 不能作为自身的别名"
  | parameterNotFound name => "参数未定义: \"" ++ name ++ "\""
  | resolutionDepthExceeded id maxDepth =>
      "解析服务 \"" ++ id ++ "\" 超过最大深度 " ++ toString maxDepth
  | containerDropped id => "服务 \"" ++ id ++ "\" 所属的容器已被释放"
  | emission message => "代码输出失败: " ++ message
  | config error => error.message

/-- Marks the error as found while `id` was compiled; the innermost mark stays. -/
def within (id : String) : Error → Error
  | compilation inner source => compilation inner source
  | error => compilation id error

def rootCause : Error → Error
  | compilation _ source => source.rootCause
  | error => error

def circularPath? (error : Error) : Option (List String) :=
  match error.rootCause with
  | circularReference _ path => some path
  | _ => none

def isCircular (error : Error) : Bool := error.circularPath?.isSome

@[simp]
theorem rootCause_within (id : String) (error : Error) :
    (error.within id).rootCause = error.rootCause := by
  cases error <;> rfl

def report (error : Error) : Json :=
  let told (kind : String) (details : List (String × Json)) : Json :=
    .obj (("error", .str kind) :: ("message", .str error.message) :: details)
  match error with
  | notFound id => told "NotFound" [("id", .str id)]
  | circularReference id path =>
      told "CircularReference" [("id", .str id), ("path", .strings path)]
  | frozenConflict id => told "FrozenConflict" [("id", .str id)]
  | ambiguousType typeName ids =>
      told "AmbiguousType" [("type_name", .str typeName), ("ids", .strings ids)]
  | invalidEntity id fault =>
      told "InvalidEntity" [("id", .str id), ("reason", .str fault.reason)]
  | compilation id source => told "Compilation" [("id", .str id), ("source", source.report)]
  | aliasToItself id => told "AliasToItself" [("id", .str id)]
  | parameterNotFound name => told "ParameterNotFound" [("name", .str name)]
  | resolutionDepthExceeded id maxDepth =>
      told "ResolutionDepthExceeded" [("id", .str id), ("max_depth", .int maxDepth)]
  | containerDropped id => told "ContainerDropped" [("id", .str id)]
  | emission _ => told "Emission" []
  | config error => .obj [("error", .str "Config"), ("config", error.report)]

end Error
end Wiring
