import GoEnum.Emit.Methods
import GoEnum.Enum.Discovery

namespace GoEnum.Emit

open Enum

structure Config where
  families : Families
  errorOnUnknown : Bool
  preferTextual : Bool
  debug : Bool
  deriving DecidableEq, Repr

structure Output where
  body : String
  imports : Imports
  deriving DecidableEq, Repr

namespace Output

def empty : Output := ⟨"", .nothing⟩

def append (a b : Output) : Output := ⟨a.body ++ b.body, a.imports.union b.imports⟩

def ofMethods (ms : List Method) : Output :=
  ⟨(ms.foldl (fun e m => m.emit e) Emitter.empty).text,
    ms.foldl (fun i m => i.union m.imports) Imports.nothing⟩

end Output

def contextOf (config : Config) (p : Package) (type : String) :
    Except GenerateError TypeContext := do
  let members ← collect p type
  let policy := ⟨config.errorOnUnknown, config.preferTextual, members.hasPlaceholder⟩
  return .of type (← reduce type members.values policy) config.preferTextual

def generateType (config : Config) (p : Package) (type : String) : Except GenerateError Output := do
  return .ofMethods (methods config.families (← contextOf config p type))

def Output.generate (out : Output) (config : Config) (p : Package) (type : String) :
    Except GenerateError Output := do
  return out.append (← generateType config p type)

def generatedMarker (args : List String) : String :=
  "Code generated by \"" ++ " ".intercalate ("enumgen" :: args) ++ "\"; DO NOT EDIT."

def preamble (p : Package) (imports : Imports) (args : List String) : String :=
  ((((Emitter.empty.comment (generatedMarker args)).blank.line s!"package {p.name}").blank).imports
    imports.paths).text

def Output.finish (out : Output) (p : Package) (args : List String) : String :=
  preamble p out.imports args ++ out.body

end GoEnum.Emit
