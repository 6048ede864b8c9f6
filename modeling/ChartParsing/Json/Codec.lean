import ChartParsing.Diagnostic
import ChartParsing.Forest.Basic
import ChartParsing.Json.Basic
import ChartParsing.Stats

/-!
# Reading and writing values

Each type has one written form and a reader that may take others as well.
Readers answer `none` for a value that is no form of their type.
-/

namespace ChartParsing

/-! ## Records -/

/-- A symbol is written as its code, and so zero is no symbol. -/
def Symbol.toJson (symbol : Symbol) : Json := .nat symbol.code.toNat

def Symbol.ofCode? (code : Nat) : Option Symbol :=
  if code < UInt32.size then
    if h : UInt32.ofNat code = 0 then none else some ⟨UInt32.ofNat code, h⟩
  else none

def Symbol.ofJson? (json : Json) : Option Symbol := json.word?.bind ofCode?

def Span.toJson (span : Span) : Json :=
  .object [("start", .nat span.start), ("end", .nat span.stop)]

def Span.ofJson? (json : Json) : Option Span := do
  let [start, stop] ← json.record? ["start", "end"] | none
  return ⟨← start.word?, ← stop.word?⟩

def Stats.toJson (stats : Stats) : Json :=
  .object [("steps", .nat stats.steps), ("combinations", .nat stats.combinations)]

def Stats.ofJson? (json : Json) : Option Stats := do
  let [steps, combinations] ← json.record? ["steps", "combinations"] | none
  return ⟨← steps.word?, ← combinations.word?⟩

def Production.toJson (rule : Production) : Json :=
  .object [("lhs", .string rule.lhs), ("rhs", .array (rule.rhs.map .string))]

def Production.ofJson? (json : Json) : Option Production := do
  let [lhs, rhs] ← json.record? ["lhs", "rhs"] | none
  return ⟨← lhs.string?, ← (← rhs.array?).mapM Json.string?⟩

def Limits.boundToJson : Option Nat → Json
  | some bound => .nat bound
  | none => .null

def Limits.boundOfJson? : Json → Option (Option Nat)
  | .null => some none
  | json => some <$> json.word?

def Limits.toJson (limits : Limits) : Json :=
  .object [("trees_per_node", boundToJson limits.perNode),
    ("total_trees", boundToJson limits.total)]

def Limits.ofJson? (json : Json) : Option Limits := do
  let [perNode, total] ← json.partialRecord? ["trees_per_node", "total_trees"] | none
  return ⟨← boundOfJson? perNode, ← boundOfJson? total⟩

/-! ## Choices -/

def Violation.toJson : Violation → Json
  | .loneNonterminal => .string "UnaryNonterminal"
  | .mixedPair => .string "BinaryWithTerminal"
  | .wrongLength length => .object [("Arity", .nat length)]

/-- A choice without contents may also stand as the key of a null. -/
def Violation.ofJson? (json : Json) : Option Violation :=
  match json.string? with
  | some "UnaryNonterminal" => some .loneNonterminal
  | some "BinaryWithTerminal" => some .mixedPair
  | some _ => none
  | none =>
      match json.single? with
      | some ("UnaryNonterminal", .null) => some .loneNonterminal
      | some ("BinaryWithTerminal", .null) => some .mixedPair
      | some ("Arity", length) => .wrongLength <$> length.word?
      | _ => none

def Diagnostic.toJson : Diagnostic → Json
  | .dropped rule violation =>
      .object [("CnfViolation",
        .object [("rule", rule.toJson), ("violation", violation.toJson)])]
  | .unknownToken position token =>
      .object [("UnknownToken",
        .object [("position", .nat position), ("token", .string token)])]
  | .unknownStart label => .object [("UnknownStartSymbol", .object [("name", .string label)])]

/-- The contents of a choice have to be an object. -/
def Diagnostic.ofJson? (json : Json) : Option Diagnostic :=
  match json.single? with
  | some ("CnfViolation", contents) => do
      let [rule, violation] ← contents.fields? ["rule", "violation"] | none
      return .dropped (← Production.ofJson? rule) (← Violation.ofJson? violation)
  | some ("UnknownToken", contents) => do
      let [position, token] ← contents.fields? ["position", "token"] | none
      return .unknownToken (← position.word?) (← token.string?)
  | some ("UnknownStartSymbol", contents) => do
      let [label] ← contents.fields? ["name"] | none
      return .unknownStart (← label.string?)
  | _ => none

/-! ## Trees -/

namespace Tree

mutual

def toJson : Tree → Json
  | ⟨symbol, span, children⟩ =>
      .object [("symbol", symbol.toJson), ("span", span.toJson),
        ("children", .array (toJsonAll children))]

def toJsonAll : List Tree → List Json
  | [] => []
  | tree :: trees => toJson tree :: toJsonAll trees

end

def ofJson? (json : Json) : Option Tree :=
  match h : json.record? ["symbol", "span", "children"] with
  | some [symbol, span, .array children] => do
      let symbol ← Symbol.ofJson? symbol
      let span ← Span.ofJson? span
      let children ← children.attach.mapM fun ⟨child, hchild⟩ =>
        have hsize : sizeOf child < sizeOf json :=
          Json.sizeOf_lt_of_mem_of_record? h (by simp) hchild
        ofJson? child
      return ⟨symbol, span, children⟩
  | _ => none
termination_by sizeOf json

end Tree

end ChartParsing
