import ModuleLowering.Syntax.Node

/-!
# Registry calls

The statements and expressions that a lowered module is given. The registry is an object that the
host keeps at a fixed place; it hands out modules, takes external ones in, and is told what a module
publishes. Nothing made here has a place in a source text.
-/

set_option autoImplicit false

namespace ModuleLowering

namespace Node

def identifier (name : Text) : Node := made (.identifier name)

def literal (value : Value) : Node := made (.literal value none)

def textLiteral (t : Text) : Node := literal (.text t)

/-- The member `name` of an object. -/
def memberNamed (object : Node) (name : Text) : Node :=
  made (.memberExpression (some object) (some (identifier name)) false false)

def memberPath (object : Node) (names : List Text) : Node := names.foldl memberNamed object

def callOf (callee : Node) (arguments : List Node) : Node :=
  made (.callExpression (some callee) arguments false)

def constant (name : Text) (init : Option Node) : Node :=
  made (.variableDeclaration "const"
    [made (.variableDeclarator (some (identifier name)) init)])

def asStatement (e : Node) : Node := made (.expressionStatement (some e))

def importOf (specifier : Node) (source : Value) : Node :=
  made (.importDeclaration [specifier] (some (literal source)))

/-- `import name from "source";` -/
def defaultImport (name : Text) (source : Value) : Node :=
  importOf (made (.importDefaultSpecifier (some (identifier name)))) source

/-- `import {imported as name} from "source";` -/
def namedImport (name imported : Text) (source : Value) : Node :=
  importOf (made (.importSpecifier (some (identifier name)) (some (identifier imported)))) source

/-- `import * as name from "source";` -/
def wholeImport (name : Text) (source : Value) : Node :=
  importOf (made (.importNamespaceSpecifier (some (identifier name)))) source

end Node

namespace Registry

open Node

def part (names : List Text) : Node := memberPath (identifier "global") ("__modules" :: names)

/-- A call of an entry point of the registry. -/
def call (entry : Text) (arguments : List Node) : Node := callOf (part [entry]) arguments

/-- `const name = global.__modules.import("path");` -/
def localModule (name path : Text) : Node :=
  constant name (some (call "import" [textLiteral path]))

/-- `import * as name from "specifier"; global.__modules.external("specifier", name);` -/
def externalModule (name specifier : Text) : List Node :=
  [wholeImport name (.text specifier),
    asStatement (call "external" [textLiteral specifier, identifier name])]

/-- `global.__modules.require("path")` -/
def require (path : Text) : Node := call "require" [textLiteral path]

/-- `global.__modules.helpers.asWildcard(name)` -/
def asWildcard (name : Text) : Node :=
  callOf (part ["helpers", "asWildcard"]) [identifier name]

/-- `const name = global.__modules.cjs("moduleId");` -/
def boundary (name moduleId : Text) : Node :=
  constant name (some (call "cjs" [textLiteral moduleId]))

/-- The property that publishes `name` under `key`. -/
def publishedProperty (key name : Text) : Node :=
  made (.property (some (identifier key)) (some (identifier name)) false (key = name) false "init")

/-- `global.__modules.esm("moduleId", { … }, wildcard, …);` -/
def publication (moduleId : Text) (properties : List Node) (wildcards : List Text) : Node :=
  asStatement
    (call "esm"
      (textLiteral moduleId :: made (.objectExpression properties) :: wildcards.map identifier))

end Registry

end ModuleLowering
