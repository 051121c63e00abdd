import BuiltInScript.Lexing.WordTable
import BuiltInScript.Query.Kind

/-!
# Words of the query language
-/
namespace BuiltInScript.Query

/-- Keywords. `ON` of a join is the same word as `BY` in Russian. Mirrors `KEYWORDS`. -/
def keywords : WordTable Kind :=
  (foldWord "On", .kwBy) ::
    wordTable [
      ("Выбрать", "Select", .kwSelect),
      ("Разрешенные", "Allowed", .kwAllowed),
      ("Различные", "Distinct", .kwDistinct),
      ("Первые", "Top", .kwTop),
      ("Как", "As", .kwAs),
      ("Из", "From", .kwFrom),
      ("Где", "Where", .kwWhere),
      ("И", "And", .kwAnd),
      ("Или", "Or", .kwOr),
      ("Не", "Not", .kwNot),
      ("Объединить", "Union", .kwUnion),
      ("Все", "All", .kwAll),
      ("Поместить", "Into", .kwInto),
      ("Уничтожить", "Drop", .kwDrop),
      ("Сгруппировать", "Group", .kwGroup),
      ("Упорядочить", "Order", .kwOrder),
      ("По", "By", .kwBy),
      ("Имеющие", "Having", .kwHaving),
      ("Итоги", "Totals", .kwTotals),
      ("Левое", "Left", .kwLeft),
      ("Правое", "Right", .kwRight),
      ("Полное", "Full", .kwFull),
      ("Внутреннее", "Inner", .kwInner),
      ("Внешнее", "Outer", .kwOuter),
      ("Соединение", "Join", .kwJoin),
      ("Выбор", "Case", .kwCase),
      ("Когда", "When", .kwWhen),
      ("Тогда", "Then", .kwThen),
      ("Иначе", "Else", .kwElse),
      ("Конец", "End", .kwEnd),
      ("В", "In", .kwIn),
      ("Есть", "Is", .kwIs),
      ("Подобно", "Like", .kwLike),
      ("Между", "Between", .kwBetween),
      ("Спецсимвол", "Escape", .kwEscape),
      ("Null", "Null", .kwNull),
      ("Истина", "True", .kwTrue),
      ("Ложь", "False", .kwFalse),
      ("Неопределено", "Undefined", .kwUndefined),
      ("Значение", "Value", .kwValue),
      ("Возр", "Asc", .kwAsc),
      ("Убыв", "Desc", .kwDesc),
      ("Для", "For", .kwFor),
      ("Изменения", "Update", .kwUpdate),
      ("Индексировать", "Index", .kwIndex)]

/-- Words that begin the name of a table of the configuration. Mirrors `METADATA_TYPES`. -/
def metadataWords : WordTable Kind :=
  wordTable [
    ("Справочник", "Catalog", .metadataType),
    ("Документ", "Document", .metadataType),
    ("ЖурналДокументов", "DocumentJournal", .metadataType),
    ("Перечисление", "Enum", .metadataType),
    ("ПланВидовХарактеристик", "ChartOfCharacteristicTypes", .metadataType),
    ("ПланСчетов", "ChartOfAccounts", .metadataType),
    ("ПланВидовРасчета", "ChartOfCalculationTypes", .metadataType),
    ("РегистрСведений", "InformationRegister", .metadataType),
    ("РегистрНакопления", "AccumulationRegister", .metadataType),
    ("РегистрБухгалтерии", "AccountingRegister", .metadataType),
    ("РегистрРасчета", "CalculationRegister", .metadataType),
    ("БизнесПроцесс", "BusinessProcess", .metadataType),
    ("Задача", "Task", .metadataType),
    ("ПланОбмена", "ExchangePlan", .metadataType),
    ("Константа", "Constant", .metadataType),
    ("Последовательность", "Sequence", .metadataType),
    ("ВнешнийИсточникДанных", "ExternalDataSource", .metadataType)]

end BuiltInScript.Query
