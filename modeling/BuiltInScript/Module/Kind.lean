import BuiltInScript.Token

/-!
# Kinds of module tokens

Keywords are named by their English spelling and shown by their Russian one. A directive has kinds
of its own for its words and signs, so that nothing in it is taken for code.
-/
namespace BuiltInScript.Module

/-- Kinds of tokens in the text of a module. Mirrors `TokenKind`. -/
inductive Kind where
  | whiteSpace | lineComment | identifier | number | date | string | stringStart | stringPart
  | stringTail | kwTrue | kwFalse | kwUndefined | kwNull | kwProcedure | kwFunction
  | kwEndProcedure | kwEndFunction | kwExport | kwVal | kwVar | kwIf | kwThen | kwElsIf | kwElse
  | kwEndIf | kwWhile | kwFor | kwEach | kwIn | kwTo | kwDo | kwEndDo | kwTry | kwExcept
  | kwEndTry | kwReturn | kwContinue | kwBreak | kwRaise | kwExecute | kwGoto | kwAddHandler
  | kwRemoveHandler | kwNew | kwNot | kwAnd | kwOr | kwAsync | kwAwait | dot | leftBracket
  | rightBracket | leftParen | rightParen | colon | semicolon | comma | assign | plus | minus
  | star | slash | percent | less | lessOrEqual | notEqual | greater | greaterOrEqual | question
  | ampersand | tilde | hash | annotationAtServer | annotationAtClient
  | annotationAtClientAtServer | annotationAtServerNoContext | annotationAtClientAtServerNoContext
  | annotationBefore | annotationAfter | annotationAround | annotationChangeAndValidate
  | annotationCustom | dirIf | dirElsIf | dirElse | dirEndIf | dirThen | dirNot | dirAnd | dirOr
  | dirLeftParen | dirRightParen | dirSymbol | dirIdentifier | dirRegion | dirEndRegion | dirUse
  | dirUsePath | dirString | dirExclamation | dirText | dirNewline | insertMarker
  | endInsertMarker | deleteMarker | endDeleteMarker | deletedText | unknown | endOfInput
deriving DecidableEq, Repr, Inhabited

namespace Kind

/-- All kinds, in the order in which they are listed. Mirrors `TokenKind.ALL`. -/
def all : List Kind :=
  [.whiteSpace, .lineComment, .identifier, .number, .date, .string, .stringStart, .stringPart,
   .stringTail, .kwTrue, .kwFalse, .kwUndefined, .kwNull, .kwProcedure, .kwFunction,
   .kwEndProcedure, .kwEndFunction, .kwExport, .kwVal, .kwVar, .kwIf, .kwThen, .kwElsIf, .kwElse,
   .kwEndIf, .kwWhile, .kwFor, .kwEach, .kwIn, .kwTo, .kwDo, .kwEndDo, .kwTry, .kwExcept,
   .kwEndTry, .kwReturn, .kwContinue, .kwBreak, .kwRaise, .kwExecute, .kwGoto, .kwAddHandler,
   .kwRemoveHandler, .kwNew, .kwNot, .kwAnd, .kwOr, .kwAsync, .kwAwait, .dot, .leftBracket,
   .rightBracket, .leftParen, .rightParen, .colon, .semicolon, .comma, .assign, .plus, .minus,
   .star, .slash, .percent, .less, .lessOrEqual, .notEqual, .greater, .greaterOrEqual, .question,
   .ampersand, .tilde, .hash, .annotationAtServer, .annotationAtClient,
   .annotationAtClientAtServer, .annotationAtServerNoContext,
   .annotationAtClientAtServerNoContext, .annotationBefore, .annotationAfter, .annotationAround,
   .annotationChangeAndValidate, .annotationCustom, .dirIf, .dirElsIf, .dirElse, .dirEndIf,
   .dirThen, .dirNot, .dirAnd, .dirOr, .dirLeftParen, .dirRightParen, .dirSymbol, .dirIdentifier,
   .dirRegion, .dirEndRegion, .dirUse, .dirUsePath, .dirString, .dirExclamation, .dirText,
   .dirNewline, .insertMarker, .endInsertMarker, .deleteMarker, .endDeleteMarker, .deletedText,
   .unknown, .endOfInput]

/-- How diagnostics name a kind. Mirrors `TokenKind.name`. -/
def title : Kind → String
  | .whiteSpace => "whitespace"
  | .lineComment => "comment"
  | .identifier => "identifier"
  | .number => "number"
  | .date => "date literal"
  | .string => "string literal"
  | .stringStart => "start of a multi-line string"
  | .stringPart => "multi-line string continuation"
  | .stringTail => "end of a multi-line string"
  | .kwTrue => "`Истина`"
  | .kwFalse => "`Ложь`"
  | .kwUndefined => "`Неопределено`"
  | .kwNull => "`Null`"
  | .kwProcedure => "`Процедура`"
  | .kwFunction => "`Функция`"
  | .kwEndProcedure => "`КонецПроцедуры`"
  | .kwEndFunction => "`КонецФункции`"
  | .kwExport => "`Экспорт`"
  | .kwVal => "`Знач`"
  | .kwVar => "`Перем`"
  | .kwIf => "`Если`"
  | .kwThen => "`Тогда`"
  | .kwElsIf => "`ИначеЕсли`"
  | .kwElse => "`Иначе`"
  | .kwEndIf => "`КонецЕсли`"
  | .kwWhile => "`Пока`"
  | .kwFor => "`Для`"
  | .kwEach => "`Каждого`"
  | .kwIn => "`Из`"
  | .kwTo => "`По`"
  | .kwDo => "`Цикл`"
  | .kwEndDo => "`КонецЦикла`"
  | .kwTry => "`Попытка`"
  | .kwExcept => "`Исключение`"
  | .kwEndTry => "`КонецПопытки`"
  | .kwReturn => "`Возврат`"
  | .kwContinue => "`Продолжить`"
  | .kwBreak => "`Прервать`"
  | .kwRaise => "`ВызватьИсключение`"
  | .kwExecute => "`Выполнить`"
  | .kwGoto => "`Перейти`"
  | .kwAddHandler => "`ДобавитьОбработчик`"
  | .kwRemoveHandler => "`УдалитьОбработчик`"
  | .kwNew => "`Новый`"
  | .kwNot => "`Не`"
  | .kwAnd => "`И`"
  | .kwOr => "`Или`"
  | .kwAsync => "`Асинх`"
  | .kwAwait => "`Ждать`"
  | .dot => "`.`"
  | .leftBracket => "`[`"
  | .rightBracket => "`]`"
  | .leftParen => "`(`"
  | .rightParen => "`)`"
  | .colon => "`:`"
  | .semicolon => "`;`"
  | .comma => "`,`"
  | .assign => "`=`"
  | .plus => "`+`"
  | .minus => "`-`"
  | .star => "`*`"
  | .slash => "`/`"
  | .percent => "`%`"
  | .less => "`<`"
  | .lessOrEqual => "`<=`"
  | .notEqual => "`<>`"
  | .greater => "`>`"
  | .greaterOrEqual => "`>=`"
  | .question => "`?`"
  | .ampersand => "`&`"
  | .tilde => "`~`"
  | .hash => "`#`"
  | .annotationAtServer => "`НаСервере`"
  | .annotationAtClient => "`НаКлиенте`"
  | .annotationAtClientAtServer => "`НаКлиентеНаСервере`"
  | .annotationAtServerNoContext => "`НаСервереБезКонтекста`"
  | .annotationAtClientAtServerNoContext => "`НаКлиентеНаСервереБезКонтекста`"
  | .annotationBefore => "`Перед`"
  | .annotationAfter => "`После`"
  | .annotationAround => "`Вместо`"
  | .annotationChangeAndValidate => "`ИзменениеИКонтроль`"
  | .annotationCustom => "annotation name"
  | .dirIf => "`#Если`"
  | .dirElsIf => "`#ИначеЕсли`"
  | .dirElse => "`#Иначе`"
  | .dirEndIf => "`#КонецЕсли`"
  | .dirThen => "`Тогда`"
  | .dirNot => "`Не`"
  | .dirAnd => "`И`"
  | .dirOr => "`Или`"
  | .dirLeftParen => "`(`"
  | .dirRightParen => "`)`"
  | .dirSymbol => "build symbol"
  | .dirIdentifier => "identifier"
  | .dirRegion => "`#Область`"
  | .dirEndRegion => "`#КонецОбласти`"
  | .dirUse => "`#Использовать`"
  | .dirUsePath => "library name"
  | .dirString => "string literal"
  | .dirExclamation => "`!`"
  | .dirText => "directive text"
  | .dirNewline => "end of directive"
  | .insertMarker => "`#Вставка`"
  | .endInsertMarker => "`#КонецВставки`"
  | .deleteMarker => "`#Удаление`"
  | .endDeleteMarker => "`#КонецУдаления`"
  | .deletedText => "deleted text"
  | .unknown => "unknown character"
  | .endOfInput => "end of file"

/-- Where the lexer puts tokens of a kind. Mirrors `TokenKind.channel`. -/
def channels : Kind → Channels
  | .whiteSpace | .lineComment | .dirNewline | .insertMarker | .endInsertMarker => .hiddenOnly
  | .deleteMarker | .endDeleteMarker | .deletedText => .deletedOnly
  | _ => .codeOnly

/-- Found only in directive lines, after the `#`. Mirrors `TokenKind.is_directive_part`. -/
def isDirectivePart : Kind → Bool
  | .dirIf | .dirElsIf | .dirElse | .dirEndIf | .dirThen | .dirNot | .dirAnd | .dirOr
  | .dirLeftParen | .dirRightParen | .dirSymbol | .dirIdentifier | .dirRegion | .dirEndRegion
  | .dirUse | .dirUsePath | .dirString | .dirExclamation | .dirText | .dirNewline => true
  | _ => false

/-- What `&` may be followed by. Mirrors `TokenKind.is_annotation`. -/
def isAnnotationName : Kind → Bool
  | .annotationAtServer | .annotationAtClient | .annotationAtClientAtServer
  | .annotationAtServerNoContext | .annotationAtClientAtServerNoContext | .annotationBefore
  | .annotationAfter | .annotationAround | .annotationChangeAndValidate | .annotationCustom => true
  | _ => false

/-- The bracket that closes an opening one. Mirrors `TokenKind.closed_by`. -/
def closer? : Kind → Option Kind
  | .leftParen => some .rightParen
  | .leftBracket => some .rightBracket
  | _ => none

/-- Opens or closes a patch zone. -/
def isPatchMarker : Kind → Bool
  | .insertMarker | .endInsertMarker | .deleteMarker | .endDeleteMarker => true
  | _ => false

end Kind

instance : TokenKind Kind := ⟨.endOfInput, Kind.title, Kind.channels⟩

end BuiltInScript.Module
