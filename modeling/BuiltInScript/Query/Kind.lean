import BuiltInScript.Token

/-!
# Kinds of query tokens

The query language has kinds of its own. Only white space and comments are hidden from its parser.
-/
namespace BuiltInScript.Query

/-- Kinds of tokens in the text of a query. Mirrors `QueryTokenKind`. -/
inductive Kind where
  | whiteSpace | lineComment | number | string | parameter | identifier | metadataType | kwSelect
  | kwAllowed | kwDistinct | kwTop | kwAs | kwFrom | kwWhere | kwAnd | kwOr | kwNot | kwUnion
  | kwAll | kwInto | kwDrop | kwGroup | kwOrder | kwBy | kwHaving | kwTotals | kwLeft | kwRight
  | kwFull | kwInner | kwOuter | kwJoin | kwCase | kwWhen | kwThen | kwElse | kwEnd | kwIn | kwIs
  | kwLike | kwBetween | kwEscape | kwNull | kwTrue | kwFalse | kwUndefined | kwValue | kwAsc
  | kwDesc | kwFor | kwUpdate | kwIndex | dot | comma | semicolon | leftParen | rightParen | plus
  | minus | star | slash | assign | less | lessOrEqual | notEqual | greater | greaterOrEqual
  | unknown | endOfInput
deriving DecidableEq, Repr, Inhabited

namespace Kind

/-- All kinds, in the order in which they are listed. Mirrors `QueryTokenKind.ALL`. -/
def all : List Kind :=
  [.whiteSpace, .lineComment, .number, .string, .parameter, .identifier, .metadataType, .kwSelect,
   .kwAllowed, .kwDistinct, .kwTop, .kwAs, .kwFrom, .kwWhere, .kwAnd, .kwOr, .kwNot, .kwUnion,
   .kwAll, .kwInto, .kwDrop, .kwGroup, .kwOrder, .kwBy, .kwHaving, .kwTotals, .kwLeft, .kwRight,
   .kwFull, .kwInner, .kwOuter, .kwJoin, .kwCase, .kwWhen, .kwThen, .kwElse, .kwEnd, .kwIn, .kwIs,
   .kwLike, .kwBetween, .kwEscape, .kwNull, .kwTrue, .kwFalse, .kwUndefined, .kwValue, .kwAsc,
   .kwDesc, .kwFor, .kwUpdate, .kwIndex, .dot, .comma, .semicolon, .leftParen, .rightParen, .plus,
   .minus, .star, .slash, .assign, .less, .lessOrEqual, .notEqual, .greater, .greaterOrEqual,
   .unknown, .endOfInput]

/-- How diagnostics name a kind. Mirrors `QueryTokenKind.name`. -/
def title : Kind → String
  | .whiteSpace => "whitespace"
  | .lineComment => "comment"
  | .number => "number"
  | .string => "string literal"
  | .parameter => "query parameter"
  | .identifier => "identifier"
  | .metadataType => "metadata type"
  | .kwSelect => "`ВЫБРАТЬ`"
  | .kwAllowed => "`РАЗРЕШЕННЫЕ`"
  | .kwDistinct => "`РАЗЛИЧНЫЕ`"
  | .kwTop => "`ПЕРВЫЕ`"
  | .kwAs => "`КАК`"
  | .kwFrom => "`ИЗ`"
  | .kwWhere => "`ГДЕ`"
  | .kwAnd => "`И`"
  | .kwOr => "`ИЛИ`"
  | .kwNot => "`НЕ`"
  | .kwUnion => "`ОБЪЕДИНИТЬ`"
  | .kwAll => "`ВСЕ`"
  | .kwInto => "`ПОМЕСТИТЬ`"
  | .kwDrop => "`УНИЧТОЖИТЬ`"
  | .kwGroup => "`СГРУППИРОВАТЬ`"
  | .kwOrder => "`УПОРЯДОЧИТЬ`"
  | .kwBy => "`ПО`"
  | .kwHaving => "`ИМЕЮЩИЕ`"
  | .kwTotals => "`ИТОГИ`"
  | .kwLeft => "`ЛЕВОЕ`"
  | .kwRight => "`ПРАВОЕ`"
  | .kwFull => "`ПОЛНОЕ`"
  | .kwInner => "`ВНУТРЕННЕЕ`"
  | .kwOuter => "`ВНЕШНЕЕ`"
  | .kwJoin => "`СОЕДИНЕНИЕ`"
  | .kwCase => "`ВЫБОР`"
  | .kwWhen => "`КОГДА`"
  | .kwThen => "`ТОГДА`"
  | .kwElse => "`ИНАЧЕ`"
  | .kwEnd => "`КОНЕЦ`"
  | .kwIn => "`В`"
  | .kwIs => "`ЕСТЬ`"
  | .kwLike => "`ПОДОБНО`"
  | .kwBetween => "`МЕЖДУ`"
  | .kwEscape => "`СПЕЦСИМВОЛ`"
  | .kwNull => "`NULL`"
  | .kwTrue => "`ИСТИНА`"
  | .kwFalse => "`ЛОЖЬ`"
  | .kwUndefined => "`НЕОПРЕДЕЛЕНО`"
  | .kwValue => "`ЗНАЧЕНИЕ`"
  | .kwAsc => "`ВОЗР`"
  | .kwDesc => "`УБЫВ`"
  | .kwFor => "`ДЛЯ`"
  | .kwUpdate => "`ИЗМЕНЕНИЯ`"
  | .kwIndex => "`ИНДЕКСИРОВАТЬ`"
  | .dot => "`.`"
  | .comma => "`,`"
  | .semicolon => "`;`"
  | .leftParen => "`(`"
  | .rightParen => "`)`"
  | .plus => "`+`"
  | .minus => "`-`"
  | .star => "`*`"
  | .slash => "`/`"
  | .assign => "`=`"
  | .less => "`<`"
  | .lessOrEqual => "`<=`"
  | .notEqual => "`<>`"
  | .greater => "`>`"
  | .greaterOrEqual => "`>=`"
  | .unknown => "unknown character"
  | .endOfInput => "end of file"

/-- Where the lexer puts tokens of a kind. Mirrors `QueryTokenKind.channel`. -/
def channels : Kind → Channels
  | .whiteSpace | .lineComment => .hiddenOnly
  | _ => .codeOnly

end Kind

instance : TokenKind Kind := ⟨.endOfInput, Kind.title, Kind.channels⟩

end BuiltInScript.Query
