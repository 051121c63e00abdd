import BuiltInScript.Lexing.WordTable
import BuiltInScript.Module.Kind

/-!
# Words of the module language

Which words are keywords depends on where they stand: in code, after `&`, in a directive line, or
right after the `#` of a patch marker.
-/
namespace BuiltInScript.Module

/-- Keywords of code. Mirrors `KEYWORDS`. -/
def keywords : WordTable Kind :=
  wordTable [
    ("Процедура", "Procedure", .kwProcedure),
    ("Функция", "Function", .kwFunction),
    ("КонецПроцедуры", "EndProcedure", .kwEndProcedure),
    ("КонецФункции", "EndFunction", .kwEndFunction),
    ("Экспорт", "Export", .kwExport),
    ("Знач", "Val", .kwVal),
    ("Перем", "Var", .kwVar),
    ("Если", "If", .kwIf),
    ("Тогда", "Then", .kwThen),
    ("ИначеЕсли", "ElsIf", .kwElsIf),
    ("Иначе", "Else", .kwElse),
    ("КонецЕсли", "EndIf", .kwEndIf),
    ("Пока", "While", .kwWhile),
    ("Для", "For", .kwFor),
    ("Каждого", "Each", .kwEach),
    ("Из", "In", .kwIn),
    ("По", "To", .kwTo),
    ("Цикл", "Do", .kwDo),
    ("КонецЦикла", "EndDo", .kwEndDo),
    ("Попытка", "Try", .kwTry),
    ("Исключение", "Except", .kwExcept),
    ("КонецПопытки", "EndTry", .kwEndTry),
    ("Возврат", "Return", .kwReturn),
    ("Продолжить", "Continue", .kwContinue),
    ("Прервать", "Break", .kwBreak),
    ("ВызватьИсключение", "Raise", .kwRaise),
    ("Выполнить", "Execute", .kwExecute),
    ("Перейти", "Goto", .kwGoto),
    ("ДобавитьОбработчик", "AddHandler", .kwAddHandler),
    ("УдалитьОбработчик", "RemoveHandler", .kwRemoveHandler),
    ("Новый", "New", .kwNew),
    ("Не", "Not", .kwNot),
    ("И", "And", .kwAnd),
    ("Или", "Or", .kwOr),
    ("Асинх", "Async", .kwAsync),
    ("Истина", "True", .kwTrue),
    ("Ложь", "False", .kwFalse),
    ("Неопределено", "Undefined", .kwUndefined),
    ("Null", "Null", .kwNull)]

/-- A keyword only inside asynchronous methods. Mirrors `AWAIT`. -/
def awaitWords : WordTable Kind :=
  wordTable [
    ("Ждать", "Await", .kwAwait)]

/-- Names of annotations that the language defines. Mirrors `ANNOTATIONS`. -/
def annotationWords : WordTable Kind :=
  wordTable [
    ("НаСервере", "AtServer", .annotationAtServer),
    ("НаКлиенте", "AtClient", .annotationAtClient),
    ("НаКлиентеНаСервере", "AtClientAtServer", .annotationAtClientAtServer),
    ("НаСервереБезКонтекста", "AtServerNoContext", .annotationAtServerNoContext),
    ("НаКлиентеНаСервереБезКонтекста", "AtClientAtServerNoContext", .annotationAtClientAtServerNoContext),
    ("Перед", "Before", .annotationBefore),
    ("После", "After", .annotationAfter),
    ("Вместо", "Around", .annotationAround),
    ("ИзменениеИКонтроль", "ChangeAndValidate", .annotationChangeAndValidate)]

/-- Keywords of directive lines. Mirrors `DIRECTIVES`. -/
def directiveWords : WordTable Kind :=
  wordTable [
    ("Если", "If", .dirIf),
    ("ИначеЕсли", "ElsIf", .dirElsIf),
    ("Иначе", "Else", .dirElse),
    ("КонецЕсли", "EndIf", .dirEndIf),
    ("Тогда", "Then", .dirThen),
    ("Не", "Not", .dirNot),
    ("И", "And", .dirAnd),
    ("Или", "Or", .dirOr),
    ("Область", "Region", .dirRegion),
    ("КонецОбласти", "EndRegion", .dirEndRegion),
    ("Использовать", "Use", .dirUse)]

/-- Words that make one token with the `#` before them. Mirrors `PATCH_MARKERS`. -/
def patchWords : WordTable Kind :=
  wordTable [
    ("Вставка", "Insert", .insertMarker),
    ("КонецВставки", "EndInsert", .endInsertMarker),
    ("Удаление", "Delete", .deleteMarker),
    ("КонецУдаления", "EndDelete", .endDeleteMarker)]

end BuiltInScript.Module
