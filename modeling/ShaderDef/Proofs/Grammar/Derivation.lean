import ShaderDef.Definition.Basic
import ShaderDef.Text.Bytes
import ShaderDef.Token

/-! The grammar of shader definitions. A derivation relates tokens to what they declare. Comments
may stand before every token that the grammar names and at the end; between the braces of a stage
all tokens belong to its code. -/

namespace ShaderDef

inductive Declaration where
  | name (text : String)
  | uniforms (buffer : UniformBuffer)
  | textures (list : List Binding)
  | input (list : List Binding)
  | pixelInput (list : List Binding)
  | code (stage : Stage) (text : String)
  | entry (entry : Entry) (text : String)
deriving DecidableEq, Repr

def Declaration.item? : Declaration → Option Item
  | .name _ => some .name
  | .input _ => some .input
  | .pixelInput _ => some .pixelInput
  | .code stage _ => some (.code stage)
  | .entry point _ => some (.entry point)
  | _ => none

def Stage.keyword : Stage → Token.Kind
  | .shared => .sharedKeyword
  | .vertex => .vertexKeyword
  | .fragment => .fragmentKeyword

def Entry.keyword : Entry → Token.Kind
  | .vertex => .vertexKeyword
  | .fragment => .fragmentKeyword

def Item.keyword : Item → Token.Kind
  | .name => .nameKeyword
  | .input => .inputKeyword
  | .pixelInput => .pixelInputKeyword
  | .code stage => stage.keyword
  | .entry point => point.keyword

theorem Stage.ofKeyword?_eq_some {kind : Token.Kind} {stage : Stage} :
    Stage.ofKeyword? kind = some stage ↔ kind = stage.keyword := by
  cases kind <;> cases stage <;> simp [Stage.ofKeyword?, Stage.keyword]

theorem Entry.ofKeyword?_eq_some {kind : Token.Kind} {entry : Entry} :
    Entry.ofKeyword? kind = some entry ↔ kind = entry.keyword := by
  cases kind <;> cases entry <;> simp [Entry.ofKeyword?, Entry.keyword]

namespace Grammar

variable {α : Type}

/-- A token of a kind, behind any number of comments. -/
inductive Terminal (kind : Token.Kind) : List Token → Token → Prop
  | intro {gap : List Token} {t : Token} (comments : ∀ c ∈ gap, c.kind.isComment = true)
      (same : t.kind = kind) : Terminal kind (gap ++ [t]) t

inductive Star (P : List Token → α → Prop) : List Token → List α → Prop
  | nil : Star P [] []
  | cons {front rest : List Token} {a : α} {as : List α} (head : P front a)
      (tail : Star P rest as) : Star P (front ++ rest) (a :: as)

inductive Braced (P : List Token → α → Prop) : List Token → α → Prop
  | intro {front body rest : List Token} {brace close : Token} {a : α}
      (opened : Terminal .leftBrace front brace) (inside : P body a)
      (closed : Terminal .rightBrace rest close) : Braced P (front ++ (body ++ rest)) a

def openings (ts : List Token) : Nat :=
  ts.countP fun t => t.kind = .leftBrace

def closings (ts : List Token) : Nat :=
  ts.countP fun t => t.kind = .rightBrace

structure Balanced (ts : List Token) : Prop where
  nested : ∀ front, front <+: ts → closings front ≤ openings front
  closed : closings ts = openings ts

structure Raw (ts : List Token) : Prop where
  balanced : Balanced ts
  native : ∀ t ∈ ts, t.kind ≠ .invalid

inductive Bound : List Token → Binding → Prop
  | intro {s₁ s₂ s₃ s₄ s₅ : List Token} {type name colon slot semicolon : Token}
      (typed : Terminal .symbol s₁ type) (named : Terminal .symbol s₂ name)
      (divided : Terminal .colon s₃ colon)
      (placed : Terminal .symbol s₄ slot ∨ Terminal .numberLiteral s₄ slot)
      (ended : Terminal .semicolon s₅ semicolon) :
      Bound (s₁ ++ (s₂ ++ (s₃ ++ (s₄ ++ s₅)))) ⟨type.text, name.text, slot.text⟩

inductive Entered : List Token → Declaration → Prop
  | intro {s₁ s₂ s₃ : List Token} {keyword text semicolon : Token} (entry : Entry)
      (opened : Terminal entry.keyword s₁ keyword) (named : Terminal .stringLiteral s₂ text)
      (ended : Terminal .semicolon s₃ semicolon) :
      Entered (s₁ ++ (s₂ ++ s₃)) (.entry entry text.text)

inductive Bindings : List Token → List Declaration → Prop
  | uniforms {s₁ s₂ s₃ : List Token} {keyword text : Token} {list : List Binding}
      (opened : Terminal .uniformsKeyword s₁ keyword) (named : Terminal .stringLiteral s₂ text)
      (listed : Braced (Star Bound) s₃ list) :
      Bindings (s₁ ++ (s₂ ++ s₃)) [.uniforms ⟨text.text, list⟩]
  | textures {s₁ s₂ : List Token} {keyword : Token} {list : List Binding}
      (opened : Terminal .texturesKeyword s₁ keyword) (listed : Braced (Star Bound) s₂ list) :
      Bindings (s₁ ++ s₂) [.textures list]

inductive Shader (source : String) : List Token → List Declaration → Prop
  | code {s₁ s₂ body : List Token} {keyword brace close : Token} (stage : Stage)
      (opened : Terminal stage.keyword s₁ keyword) (front : Terminal .leftBrace s₂ brace)
      (raw : Raw body) (closed : close.kind = .rightBrace) :
      Shader source (s₁ ++ (s₂ ++ (body ++ [close])))
        [.code stage (String.ofList (Text.slice (brace.index + 1) close.index source.toList))]
  | entrypoint {s₁ s₂ : List Token} {keyword : Token} {ds : List Declaration}
      (opened : Terminal .entrypointKeyword s₁ keyword) (listed : Braced (Star Entered) s₂ ds) :
      Shader source (s₁ ++ s₂) ds

inductive Section (source : String) : List Token → List Declaration → Prop
  | name {s₁ s₂ s₃ : List Token} {keyword text semicolon : Token}
      (opened : Terminal .nameKeyword s₁ keyword) (named : Terminal .stringLiteral s₂ text)
      (ended : Terminal .semicolon s₃ semicolon) :
      Section source (s₁ ++ (s₂ ++ s₃)) [.name text.text]
  | bindings {s₁ s₂ : List Token} {keyword : Token} {parts : List (List Declaration)}
      (opened : Terminal .bindingsKeyword s₁ keyword) (listed : Braced (Star Bindings) s₂ parts) :
      Section source (s₁ ++ s₂) parts.flatten
  | input {s₁ s₂ : List Token} {keyword : Token} {list : List Binding}
      (opened : Terminal .inputKeyword s₁ keyword) (listed : Braced (Star Bound) s₂ list) :
      Section source (s₁ ++ s₂) [.input list]
  | pixelInput {s₁ s₂ : List Token} {keyword : Token} {list : List Binding}
      (opened : Terminal .pixelInputKeyword s₁ keyword) (listed : Braced (Star Bound) s₂ list) :
      Section source (s₁ ++ s₂) [.pixelInput list]
  | shader {s₁ s₂ : List Token} {keyword : Token} {parts : List (List Declaration)}
      (opened : Terminal .shaderKeyword s₁ keyword)
      (listed : Braced (Star (Shader source)) s₂ parts) :
      Section source (s₁ ++ s₂) parts.flatten

inductive Program (source : String) : List Token → List Declaration → Prop
  | intro {ts gap : List Token} {parts : List (List Declaration)}
      (sections : Star (Section source) ts parts)
      (comments : ∀ c ∈ gap, c.kind.isComment = true) : Program source (ts ++ gap) parts.flatten

end Grammar

end ShaderDef
