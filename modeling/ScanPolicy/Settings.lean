import ScanPolicy.Journal.Basic
import ScanPolicy.Json.Display
import ScanPolicy.Text.Numeral

/-!
# Settings

Settings are kept in a store: a copy of given values as texts, or fields of a live hash. The cap on
hosts is one of them; a store without a usable cap leaves it to a default.

- `Store`: the two kinds of store.
- `Store.get`: the raw value of a setting.
- `Settings.resolveCap`: the cap.
- `Settings`: the settings of the program, and `Settings.store` the store they ask for, if
  `Settings.hasStore` says that it can be made.
-/

namespace ScanPolicy

/-- Where settings are kept. -/
inductive Store where
  /-- Values copied as texts when the store was made. -/
  | fixed (values : List (String × Text))
  /-- The fields of a live hash with a key. -/
  | live (key : String) (fields : List (String × Json))

namespace Store

/-- A store with copies of values. -/
def ofValues (values : List (String × Json)) : Store :=
  .fixed (values.map fun (k, v) => (k, v.display))

/-- The raw value of a setting. -/
def get (s : Store) (name : String) : Traced (Option Json) :=
  match s with
  | .fixed values => .quiet ((values.lookup name).map fun t => .text (String.ofList t))
  | .live key fields =>
    let value := match fields.lookup name with
      | some .null => none
      | v => v
    .noting value ⟨"adapter.settings.redis", Level.debug, "settings.get",
      [("key", .text key), ("name", .text name), ("found", .bool value.isSome)]⟩

/-- The store after its data have changed; a fixed store does not see the change. -/
def set (s : Store) (name : String) (value : Json) : Store :=
  match s with
  | .fixed values => .fixed values
  | .live key fields => .live key (Json.set name value fields)

end Store

/-- The settings of the program. -/
structure Settings where
  /-- The key that requests have to show, if there is one. -/
  apiKey : Option String := none
  maxHosts : Int := 4095
  backend : String := "static"
  settingsKey : String := "meta"

namespace Settings

/-- The cap on hosts where none is set. -/
def defaultCap : Int := 4095

/-- The name of the cap on hosts. -/
def capName : String := "max_hosts"

/-- The store that the settings ask for; a live one holds `fields`. -/
def store (s : Settings) (fields : List (String × Json)) : Store :=
  if s.backend = "redis" then .live s.settingsKey fields
  else .ofValues [(capName, .int s.maxHosts)]

/-- Whether the store that the settings ask for can be made: a fixed one holds the cap as a text,
and the digits of a numeral are limited. -/
def hasStore (s : Settings) : Bool :=
  s.backend = "redis" || (Text.ofNat s.maxHosts.natAbs).length ≤ Text.numeralLimit

/-- A warning about the cap. -/
def warning (message : String) (value : Json) (fallback : Int) : Entry :=
  ⟨"rule_functions", Level.warning, message, [("value", value), ("default", .int fallback)]⟩

/-- The cap on hosts: what the store says if it is a numeral that is not below zero, and else the
fallback. -/
def resolveCap (s : Store) (fallback : Int) : Traced Int := do
  match ← s.get capName with
  | none => pure fallback
  | some raw =>
    match Text.toInt? raw.display with
    | none => .noting fallback (warning "max_hosts.invalid" raw fallback)
    | some n =>
      if n < 0 then .noting fallback (warning "max_hosts.negative" (.int n) fallback) else pure n

end Settings

end ScanPolicy
