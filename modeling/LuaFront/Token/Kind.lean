/-!
# LuaFront.Token.Kind

What a token can be. Each keyword and each sign has a spelling, which is its text in a program,
and a title, which is its name in messages.
-/

namespace LuaFront

inductive Keyword where
  | and
  | «break»
  | «do»
  | «else»
  | «elseif»
  | «end»
  | «false»
  | «for»
  | function
  | goto
  | «if»
  | «in»
  | «local»
  | nil
  | not
  | or
  | «repeat»
  | «return»
  | «then»
  | «true»
  | «until»
  | «while»
deriving DecidableEq, Inhabited, Repr

namespace Keyword

def all : List Keyword :=
  [.and, .«break», .«do», .«else», .«elseif», .«end», .«false», .«for», .function, .goto, .«if»,
    .«in», .«local», .nil, .not, .or, .«repeat», .«return», .«then», .«true», .«until», .«while»]

def spelling : Keyword → String
  | .and => "and"
  | .«break» => "break"
  | .«do» => "do"
  | .«else» => "else"
  | .«elseif» => "elseif"
  | .«end» => "end"
  | .«false» => "false"
  | .«for» => "for"
  | .function => "function"
  | .goto => "goto"
  | .«if» => "if"
  | .«in» => "in"
  | .«local» => "local"
  | .nil => "nil"
  | .not => "not"
  | .or => "or"
  | .«repeat» => "repeat"
  | .«return» => "return"
  | .«then» => "then"
  | .«true» => "true"
  | .«until» => "until"
  | .«while» => "while"

def title : Keyword → String
  | .and => "And"
  | .«break» => "Break"
  | .«do» => "Do"
  | .«else» => "Else"
  | .«elseif» => "ElseIf"
  | .«end» => "End"
  | .«false» => "False"
  | .«for» => "For"
  | .function => "Function"
  | .goto => "Goto"
  | .«if» => "If"
  | .«in» => "In"
  | .«local» => "Local"
  | .nil => "Nil"
  | .not => "Not"
  | .or => "Or"
  | .«repeat» => "Repeat"
  | .«return» => "Return"
  | .«then» => "Then"
  | .«true» => "True"
  | .«until» => "Until"
  | .«while» => "While"

/-- The keyword with the given spelling, if there is one. -/
def ofWord? (word : String) : Option Keyword := all.find? (·.spelling = word)

end Keyword

/-- The operators and the punctuation. -/
inductive Sign where
  | plus
  | minus
  | asterisk
  | slash
  | slashSlash
  | percent
  | caret
  | hash
  | ampersand
  | tilde
  | pipe
  | lessLess
  | greaterGreater
  | equalsEquals
  | tildeEquals
  | lessEquals
  | greaterEquals
  | less
  | greater
  | equals
  | colonColon
  | semicolon
  | colon
  | comma
  | dot
  | dotDot
  | dotDotDot
  | openParenthesis
  | closeParenthesis
  | openBrace
  | closeBrace
  | openBracket
  | closeBracket
deriving DecidableEq, Inhabited, Repr

namespace Sign

def spelling : Sign → String
  | .plus => "+"
  | .minus => "-"
  | .asterisk => "*"
  | .slash => "/"
  | .slashSlash => "//"
  | .percent => "%"
  | .caret => "^"
  | .hash => "#"
  | .ampersand => "&"
  | .tilde => "~"
  | .pipe => "|"
  | .lessLess => "<<"
  | .greaterGreater => ">>"
  | .equalsEquals => "=="
  | .tildeEquals => "~="
  | .lessEquals => "<="
  | .greaterEquals => ">="
  | .less => "<"
  | .greater => ">"
  | .equals => "="
  | .colonColon => "::"
  | .semicolon => ";"
  | .colon => ":"
  | .comma => ","
  | .dot => "."
  | .dotDot => ".."
  | .dotDotDot => "..."
  | .openParenthesis => "("
  | .closeParenthesis => ")"
  | .openBrace => "\x7b"
  | .closeBrace => "\x7d"
  | .openBracket => "["
  | .closeBracket => "]"

def title : Sign → String
  | .plus => "Plus"
  | .minus => "Minus"
  | .asterisk => "Asterisk"
  | .slash => "Slash"
  | .slashSlash => "SlashSlash"
  | .percent => "Percent"
  | .caret => "Caret"
  | .hash => "Hash"
  | .ampersand => "Ampersand"
  | .tilde => "Tilde"
  | .pipe => "Pipe"
  | .lessLess => "LessLess"
  | .greaterGreater => "GreaterGreater"
  | .equalsEquals => "EqualsEquals"
  | .tildeEquals => "TildeEquals"
  | .lessEquals => "LessEquals"
  | .greaterEquals => "GreaterEquals"
  | .less => "Less"
  | .greater => "Greater"
  | .equals => "Equals"
  | .colonColon => "ColonColon"
  | .semicolon => "Semicolon"
  | .colon => "Colon"
  | .comma => "Comma"
  | .dot => "Dot"
  | .dotDot => "DotDot"
  | .dotDotDot => "DotDotDot"
  | .openParenthesis => "OpenParenthesis"
  | .closeParenthesis => "CloseParenthesis"
  | .openBrace => "OpenBrace"
  | .closeBrace => "CloseBrace"
  | .openBracket => "OpenBracket"
  | .closeBracket => "CloseBracket"

/-- The longest sign that some characters start with. -/
def ofChars? : List Char → Option Sign
  | '+' :: _ => some .plus
  | '-' :: _ => some .minus
  | '*' :: _ => some .asterisk
  | '/' :: '/' :: _ => some .slashSlash
  | '/' :: _ => some .slash
  | '%' :: _ => some .percent
  | '^' :: _ => some .caret
  | '#' :: _ => some .hash
  | '&' :: _ => some .ampersand
  | '~' :: '=' :: _ => some .tildeEquals
  | '~' :: _ => some .tilde
  | '|' :: _ => some .pipe
  | '<' :: '<' :: _ => some .lessLess
  | '<' :: '=' :: _ => some .lessEquals
  | '<' :: _ => some .less
  | '>' :: '>' :: _ => some .greaterGreater
  | '>' :: '=' :: _ => some .greaterEquals
  | '>' :: _ => some .greater
  | '=' :: '=' :: _ => some .equalsEquals
  | '=' :: _ => some .equals
  | ':' :: ':' :: _ => some .colonColon
  | ':' :: _ => some .colon
  | ';' :: _ => some .semicolon
  | ',' :: _ => some .comma
  | '.' :: '.' :: '.' :: _ => some .dotDotDot
  | '.' :: '.' :: _ => some .dotDot
  | '.' :: _ => some .dot
  | '(' :: _ => some .openParenthesis
  | ')' :: _ => some .closeParenthesis
  | '{' :: _ => some .openBrace
  | '}' :: _ => some .closeBrace
  | '[' :: _ => some .openBracket
  | ']' :: _ => some .closeBracket
  | _ => none

end Sign

inductive Kind where
  | endOfFile
  /-- Characters that form no token. -/
  | bad
  /-- An identifier that is no keyword. -/
  | name
  | string
  | integer
  | float
  | keyword (k : Keyword)
  | sign (s : Sign)
deriving DecidableEq, Inhabited, Repr

namespace Kind

/-- How a kind is written in a program, or in angle brackets if it has no fixed text. -/
def spelling : Kind → String
  | .endOfFile => "<eof>"
  | .bad => "<bad>"
  | .name => "<name>"
  | .string => "<string>"
  | .integer => "<integer>"
  | .float => "<float>"
  | .keyword k => k.spelling
  | .sign s => s.spelling

/-- What messages call a kind. -/
def title : Kind → String
  | .endOfFile => "EndOfFile"
  | .bad => "BadToken"
  | .name => "Name"
  | .string => "LiteralString"
  | .integer => "IntegerConstant"
  | .float => "FloatConstant"
  | .keyword k => k.title
  | .sign s => s.title

end Kind
end LuaFront
