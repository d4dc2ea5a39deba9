import GoEnum.Emit.Switch

namespace GoEnum.Emit

structure Method where
  doc : String
  receiver : String
  signature : String
  body : List Code
  imports : Imports
  deriving Repr

def Method.emit (m : Method) (e : Emitter) : Emitter :=
  e.method m.doc m.receiver m.signature (·.codes m.body)

def pointerReceiver (c : TypeContext) : String := s!"{c.receiver} *{c.type}"

def valueReceiver (c : TypeContext) : String := s!"{c.receiver} {c.type}"

def textCall (c : TypeContext) : String := s!"{c.receiver}.String()"

def scan (c : TypeContext) : Method :=
  let type := c.conversion.type
  let switch := Switch.of c
  { doc := s!"Scan implements sql.Scanner for {c.type}"
    receiver := pointerReceiver c
    signature := "Scan(value interface\x7b\x7d) error"
    body :=
      [.line s!"{c.conversion.input}, ok := value.({type})",
        .block "if !ok" [.line (
          s!"return fmt.Errorf(\"failed to scan {c.type} value: expected type `{type}`, " ++
            "got `%T`\", value)")]] ++
      switch.code c "scan"
    imports := { Imports.nothing with fmt := true } }

def value (c : TypeContext) : Method :=
  let returned := if c.textual then textCall c else s!"{c.conversion.type}({c.receiver})"
  { doc := s!"Value implements driver.Valuer for {c.type}"
    receiver := valueReceiver c
    signature := "Value() (driver.Value, error)"
    body := [.line s!"return {returned}, nil"]
    imports := { Imports.nothing with driver := true } }

def readInteger (c : TypeContext) (parser : String) : List Code :=
  let type := c.conversion.type
  [.line s!"v, err := strconv.{parser}(str, 10, 64)",
    .block "if err != nil" [.line (
      s!"return fmt.Errorf(\"failed to unmarshal {c.type} value: could not convert " ++
        s!"`[]byte` to `{type}`: %v\", err)")],
    .line s!"{c.conversion.input} := {type}(v)"]

def unmarshal (c : TypeContext) : Method :=
  let switch := Switch.of c
  let parser? := c.conversion.parser?
  { doc := s!"UnmarshalJSON implements json.Unmarshaler for {c.type}"
    receiver := pointerReceiver c
    signature := "UnmarshalJSON(data []byte) error"
    body := [.line "str := string(data)"] ++ (parser?.map (readInteger c)).getD [] ++
      switch.code c "unmarshal"
    imports := switch.imports.union ⟨false, parser?.isSome, parser?.isSome⟩ }

def marshal (c : TypeContext) : Method :=
  let bytes :=
    if c.textual then textCall c
    else if c.conversion.isInteger then s!"fmt.Sprintf(\"%d\", {c.conversion.type}({c.receiver}))"
    else c.receiver
  { doc := s!"MarshalJSON implements json.Marshaler for {c.type}"
    receiver := valueReceiver c
    signature := "MarshalJSON() ([]byte, error)"
    body := [.line s!"return []byte({bytes}), nil"]
    imports := { Imports.nothing with fmt := c.conversion.isInteger } }

inductive Families
  | both
  | storage
  | marshal
  deriving DecidableEq, Repr

def methods (families : Families) (c : TypeContext) : List Method :=
  (if families = .marshal then [] else [scan c, value c]) ++
    (if families = .storage then [] else [unmarshal c, marshal c])

end GoEnum.Emit
