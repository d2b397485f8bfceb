/-! Tokens: their kinds, with names, classes and fixed spellings, and their form in messages. -/

namespace ShaderDef

namespace Token

inductive Kind where
  | endOfFile | invalid | nameKeyword | bindingsKeyword | uniformsKeyword | texturesKeyword
  | inputKeyword | pixelInputKeyword | shaderKeyword | sharedKeyword | vertexKeyword
  | fragmentKeyword | generatedKeyword | entrypointKeyword | exclamationMark
  | exclamationMarkEqual | stringLiteral | invalidStringLiteral | hash | dollar | percent
  | ampersand | apostrophe | characterLiteral | leftParenthesis | rightParenthesis | asterisk
  | plus | comma | minus | period | slash | comment | blockComment | invalidComment
  | numberLiteral | hexNumberLiteral | binaryNumberLiteral | octalNumberLiteral
  | invalidNumberLiteral | colon | colonColon | semicolon | lessThan | lessThanEqual
  | lessThanLessThan | lessThanLessThanEqual | equal | equalEqual | greaterThan
  | greaterThanEqual | greaterThanGreaterThan | greaterThanGreaterThanEqual | questionMark
  | atSign | symbol | leftBracket | backslash | rightBracket | caret | underscore | backtick
  | leftBrace | verticalBar | rightBrace | tilde
deriving DecidableEq, Hashable, Repr

namespace Kind

def all : List Kind :=
  [.endOfFile, .invalid, .nameKeyword, .bindingsKeyword, .uniformsKeyword, .texturesKeyword,
   .inputKeyword, .pixelInputKeyword, .shaderKeyword, .sharedKeyword, .vertexKeyword,
   .fragmentKeyword, .generatedKeyword, .entrypointKeyword, .exclamationMark,
   .exclamationMarkEqual, .stringLiteral, .invalidStringLiteral, .hash, .dollar, .percent,
   .ampersand, .apostrophe, .characterLiteral, .leftParenthesis, .rightParenthesis, .asterisk,
   .plus, .comma, .minus, .period, .slash, .comment, .blockComment, .invalidComment,
   .numberLiteral, .hexNumberLiteral, .binaryNumberLiteral, .octalNumberLiteral,
   .invalidNumberLiteral, .colon, .colonColon, .semicolon, .lessThan, .lessThanEqual,
   .lessThanLessThan, .lessThanLessThanEqual, .equal, .equalEqual, .greaterThan,
   .greaterThanEqual, .greaterThanGreaterThan, .greaterThanGreaterThanEqual, .questionMark,
   .atSign, .symbol, .leftBracket, .backslash, .rightBracket, .caret, .underscore, .backtick,
   .leftBrace, .verticalBar, .rightBrace, .tilde]

def name : Kind → String
  | .endOfFile => "EndOfFile"
  | .invalid => "Invalid"
  | .nameKeyword => "NameKeyword"
  | .bindingsKeyword => "BindingsKeyword"
  | .uniformsKeyword => "UniformsKeyword"
  | .texturesKeyword => "TexturesKeyword"
  | .inputKeyword => "InputKeyword"
  | .pixelInputKeyword => "PixelInputKeyword"
  | .shaderKeyword => "ShaderKeyword"
  | .sharedKeyword => "SharedKeyword"
  | .vertexKeyword => "VertexKeyword"
  | .fragmentKeyword => "FragmentKeyword"
  | .generatedKeyword => "GeneratedKeyword"
  | .entrypointKeyword => "EntrypointKeyword"
  | .exclamationMark => "ExclamationMark"
  | .exclamationMarkEqual => "ExclamationMarkEqual"
  | .stringLiteral => "StringLiteral"
  | .invalidStringLiteral => "InvalidStringLiteral"
  | .hash => "Hash"
  | .dollar => "Dollar"
  | .percent => "Percent"
  | .ampersand => "Ampersand"
  | .apostrophe => "Apostrophe"
  | .characterLiteral => "CharacterLiteral"
  | .leftParenthesis => "LeftParenthesis"
  | .rightParenthesis => "RightParenthesis"
  | .asterisk => "Asterisk"
  | .plus => "Plus"
  | .comma => "Comma"
  | .minus => "Minus"
  | .period => "Period"
  | .slash => "Slash"
  | .comment => "Comment"
  | .blockComment => "BlockComment"
  | .invalidComment => "InvalidComment"
  | .numberLiteral => "NumberLiteral"
  | .hexNumberLiteral => "HexNumberLiteral"
  | .binaryNumberLiteral => "BinaryNumberLiteral"
  | .octalNumberLiteral => "OctalNumberLiteral"
  | .invalidNumberLiteral => "InvalidNumberLiteral"
  | .colon => "Colon"
  | .colonColon => "ColonColon"
  | .semicolon => "Semicolon"
  | .lessThan => "LessThan"
  | .lessThanEqual => "LessThanEqual"
  | .lessThanLessThan => "LessThanLessThan"
  | .lessThanLessThanEqual => "LessThanLessThanEqual"
  | .equal => "Equal"
  | .equalEqual => "EqualEqual"
  | .greaterThan => "GreaterThan"
  | .greaterThanEqual => "GreaterThanEqual"
  | .greaterThanGreaterThan => "GreaterThanGreaterThan"
  | .greaterThanGreaterThanEqual => "GreaterThanGreaterThanEqual"
  | .questionMark => "QuestionMark"
  | .atSign => "AtSign"
  | .symbol => "Symbol"
  | .leftBracket => "LeftBracket"
  | .backslash => "Backslash"
  | .rightBracket => "RightBracket"
  | .caret => "Caret"
  | .underscore => "Underscore"
  | .backtick => "Backtick"
  | .leftBrace => "LeftBrace"
  | .verticalBar => "VerticalBar"
  | .rightBrace => "RightBrace"
  | .tilde => "Tilde"

def ofName? (s : String) : Option Kind :=
  all.find? fun k => k.name == s

theorem mem_all (k : Kind) : k ∈ all := by
  cases k <;> decide

/-- A name tells its kind. -/
theorem ofName?_name (k : Kind) : ofName? k.name = some k := by
  have each : ∀ k ∈ all, ofName? k.name = some k := by decide +kernel
  exact each k k.mem_all

theorem name_injective {a b : Kind} (same : a.name = b.name) : a = b := by
  have found := congrArg ofName? same
  rwa [ofName?_name, ofName?_name, Option.some.injEq] at found

def number (k : Kind) : Nat :=
  all.idxOf k

instance : LT Kind where
  lt a b := a.number < b.number

instance (a b : Kind) : Decidable (a < b) :=
  inferInstanceAs (Decidable (a.number < b.number))

instance : ToString Kind where
  toString := name

def isInvalid : Kind → Bool
  | .invalid | .invalidStringLiteral | .invalidComment | .invalidNumberLiteral => true
  | _ => false

def isComment : Kind → Bool
  | .comment | .blockComment => true
  | _ => false

def keywords : List (String × Kind) :=
  [("Name", .nameKeyword), ("Bindings", .bindingsKeyword), ("Uniforms", .uniformsKeyword),
   ("Textures", .texturesKeyword), ("Input", .inputKeyword), ("PixelInput", .pixelInputKeyword),
   ("Shader", .shaderKeyword), ("Shared", .sharedKeyword), ("Vertex", .vertexKeyword),
   ("Fragment", .fragmentKeyword), ("Generated", .generatedKeyword),
   ("Entrypoint", .entrypointKeyword)]

def isKeyword (k : Kind) : Bool :=
  keywords.any fun entry => entry.2 == k

def ofWord (word : String) : Kind :=
  (keywords.lookup word).getD .symbol

/-- The operators of more than one character. A longer one stands before every shorter one that it
begins with, so the first entry that matches is the longest. -/
def compounds : List (List Char × Kind) :=
  [(['<', '<', '='], .lessThanLessThanEqual), (['>', '>', '='], .greaterThanGreaterThanEqual),
   (['<', '<'], .lessThanLessThan), (['>', '>'], .greaterThanGreaterThan),
   (['!', '='], .exclamationMarkEqual), (['=', '='], .equalEqual), (['<', '='], .lessThanEqual),
   (['>', '='], .greaterThanEqual), ([':', ':'], .colonColon)]

def punctuation : List (List Char × Kind) :=
  [(['!'], .exclamationMark), (['#'], .hash), (['$'], .dollar), (['%'], .percent),
   (['&'], .ampersand), (['\''], .apostrophe), (['('], .leftParenthesis),
   ([')'], .rightParenthesis), (['*'], .asterisk), (['+'], .plus), ([','], .comma),
   (['-'], .minus), (['.'], .period), (['/'], .slash), ([':'], .colon), ([';'], .semicolon),
   (['<'], .lessThan), (['='], .equal), (['>'], .greaterThan), (['?'], .questionMark),
   (['@'], .atSign), (['['], .leftBracket), (['\\'], .backslash), ([']'], .rightBracket),
   (['^'], .caret), (['_'], .underscore), (['\x60'], .backtick), (['\x7b'], .leftBrace),
   (['|'], .verticalBar), (['\x7d'], .rightBrace), (['~'], .tilde)]

def operators : List (List Char × Kind) :=
  compounds ++ punctuation

def looksAhead : Kind → Bool
  | .symbol | .numberLiteral | .invalidNumberLiteral | .invalidStringLiteral | .comment
  | .invalidComment | .apostrophe | .exclamationMark | .equal | .colon | .lessThan
  | .lessThanLessThan | .greaterThan | .greaterThanGreaterThan => true
  | k => k.isKeyword

end Kind

end Token

/-- A token with the byte offset of its first character. The text of a string literal is what
stands between its quotes; every other token is spelled by its text. -/
structure Token where
  kind : Token.Kind
  index : Nat
  text : String
deriving DecidableEq, Repr

namespace Token

def finish (size : Nat) : Token :=
  ⟨.endOfFile, size, ""⟩

def isEnd (t : Token) : Bool :=
  t.kind == .endOfFile

/-- Kind and place identify a token: tokens are compared and hashed by them alone. -/
def key (t : Token) : Kind × Nat :=
  (t.kind, t.index)

def display (t : Token) : String :=
  s!"{t.kind.name} at index {t.index}: '{t.text}'"

@[simp] theorem kind_finish (size : Nat) : (finish size).kind = .endOfFile := rfl

@[simp] theorem index_finish (size : Nat) : (finish size).index = size := rfl

@[simp] theorem isEnd_finish (size : Nat) : (finish size).isEnd = true := rfl

theorem isEnd_iff {t : Token} : t.isEnd = true ↔ t.kind = .endOfFile := by
  simp [isEnd]

end Token

end ShaderDef
