import ArithCheck.Fault
import ArithCheck.Settings.Value

/-!
# Settings

The settings say what is traced: the tokens that are produced and the rules that are entered. They
are read at the moment when a scanner or a recognizer is made and do not matter to it later.

`within` runs a computation under other settings and brings back the earlier ones when it is over,
whatever the computation did to them and even if it failed.
-/

namespace ArithCheck

structure Settings where
  traceTokens : Settings.Value
  traceRules : Settings.Value
  deriving Repr

namespace Settings

/-- Nothing is traced. -/
def default : Settings := ⟨.bool false, .bool false⟩

instance : Inhabited Settings := ⟨default⟩

/-- The same for both. -/
def traceAll (on : Bool) : Settings := ⟨.bool on, .bool on⟩

/-- The value of a field of a record. -/
def field? (fields : List (String × Value)) (name : String) : Option Value :=
  (fields.find? (·.1 = name)).map (·.2)

/-- The settings in a record; what it does not set is off, and what is no setting is ignored. -/
def ofValue : Value → Except Fault Settings
  | .record fields => .ok {
      traceTokens := (field? fields "trace_tokens").getD (.bool false)
      traceRules := (field? fields "trace_rules").getD (.bool false) }
  | value => .error (.noRecord value.typeName)

def describe (s : Settings) : String :=
  s!"RecognizerConfig(trace_tokens={s.traceTokens.render}, trace_rules={s.traceRules.render})"

/-- A state that holds the current settings. -/
class Holder (σ : Type) where
  settings : σ → Settings
  withSettings : σ → Settings → σ
  settings_withSettings (s : σ) (c : Settings) : settings (withSettings s c) = c

instance : Holder Settings where
  settings s := s
  withSettings _ c := c
  settings_withSettings _ _ := rfl

variable {σ ε α : Type} [Holder σ]

/-- The current settings. -/
def current : EStateM ε σ Settings := do
  return Holder.settings (← get)

/-- Puts other settings in the place of the current ones. -/
def assign (settings : Settings) : EStateM ε σ Unit :=
  modify (Holder.withSettings · settings)

/-- A computation after which the settings are what they were before it. -/
def isolated (body : EStateM ε σ α) : EStateM ε σ α := fun s =>
  let restore t := Holder.withSettings t (Holder.settings s)
  match body s with
  | .ok a t => .ok a (restore t)
  | .error e t => .error e (restore t)

/-- A computation under the given settings, after which they are what they were before it. -/
def within (settings : Settings) (body : EStateM ε σ α) : EStateM ε σ α :=
  isolated do
    assign settings
    body

end Settings

end ArithCheck
