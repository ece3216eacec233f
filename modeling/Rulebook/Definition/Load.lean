import Rulebook.Definition.Decode
import Rulebook.Error
import Rulebook.Yaml.Read

/-!
# Loading definitions

Definitions are read from YAML texts and from JSON documents.  A workflow that is loaded from a text
has valid settings or none.
-/

namespace Rulebook

/-- What a YAML text defines. -/
def readYaml {α : Type} (read : Document → Option α) (text : String) : Except Error α :=
  match (Yaml.read? text).bind read with
  | some a => .ok a
  | none => .error .yaml

/-- What a JSON document defines. -/
def readJson {α : Type} (read : Document → Option α) (j : Json) : Except Error α :=
  match read (.ofJson j) with
  | some a => .ok a
  | none => .error .json

def Config.ofYaml (text : String) : Except Rulebook.Error Config :=
  readYaml (Config.ofDocument? Document.depthLimit) text

def Config.ofJson (j : Json) : Except Rulebook.Error Config :=
  readJson (Config.ofDocument? Document.depthLimit) j

def RuleSetDefinition.ofYaml (text : String) : Except Error RuleSetDefinition :=
  readYaml RuleSetDefinition.ofDocument? text

def RuleSetDefinition.ofJson (j : Json) : Except Error RuleSetDefinition :=
  readJson RuleSetDefinition.ofDocument? j

def StepDefinition.ofJson (j : Json) : Except Error StepDefinition :=
  readJson StepDefinition.ofDocument? j

def WorkflowDefinition.ofJson (j : Json) : Except Error WorkflowDefinition :=
  readJson WorkflowDefinition.ofDocument? j

/-- A workflow with its settings checked. -/
def WorkflowDefinition.ofYaml (text : String) : Except Error WorkflowDefinition := do
  let d ← readYaml WorkflowDefinition.ofDocument? text
  match d.config with
  | some c => (c.validate).mapError .config
  | none => pure ()
  return d

end Rulebook
