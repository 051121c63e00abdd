import BuiltInScript.Name

/-!
# Platform symbols

Build symbols that the platform defines for the place where a module runs. Each has a Russian and
an English name.
-/
namespace BuiltInScript.Module

/-- Mirrors `PlatformSymbol`. -/
inductive PlatformSymbol where
  | client | atClient | atServer | mobileAppClient | mobileAppServer | mobileClient
  | thickClientOrdinaryApplication | thickClientManagedApplication | server | externalConnection
  | thinClient | webClient | mobileStandaloneServer | linux | windows | macOs
deriving DecidableEq, Repr, Inhabited

namespace PlatformSymbol

/-- Mirrors `PlatformSymbol.ALL`. -/
def all : List PlatformSymbol :=
  [.client, .atClient, .atServer, .mobileAppClient, .mobileAppServer, .mobileClient,
   .thickClientOrdinaryApplication, .thickClientManagedApplication, .server, .externalConnection,
   .thinClient, .webClient, .mobileStandaloneServer, .linux, .windows, .macOs]

/-- Mirrors `PlatformSymbol.russian_name`. -/
def russianName : PlatformSymbol → String
  | .client => "Клиент"
  | .atClient => "НаКлиенте"
  | .atServer => "НаСервере"
  | .mobileAppClient => "МобильноеПриложениеКлиент"
  | .mobileAppServer => "МобильноеПриложениеСервер"
  | .mobileClient => "МобильныйКлиент"
  | .thickClientOrdinaryApplication => "ТолстыйКлиентОбычноеПриложение"
  | .thickClientManagedApplication => "ТолстыйКлиентУправляемоеПриложение"
  | .server => "Сервер"
  | .externalConnection => "ВнешнееСоединение"
  | .thinClient => "ТонкийКлиент"
  | .webClient => "ВебКлиент"
  | .mobileStandaloneServer => "МобильныйАвтономныйСервер"
  | .linux => "Linux"
  | .windows => "Windows"
  | .macOs => "MacOS"

/-- Mirrors `PlatformSymbol.english_name`. -/
def englishName : PlatformSymbol → String
  | .client => "Client"
  | .atClient => "AtClient"
  | .atServer => "AtServer"
  | .mobileAppClient => "MobileAppClient"
  | .mobileAppServer => "MobileAppServer"
  | .mobileClient => "MobileClient"
  | .thickClientOrdinaryApplication => "ThickClientOrdinaryApplication"
  | .thickClientManagedApplication => "ThickClientManagedApplication"
  | .server => "Server"
  | .externalConnection => "ExternalConnection"
  | .thinClient => "ThinClient"
  | .webClient => "WebClient"
  | .mobileStandaloneServer => "MobileStandaloneServer"
  | .linux => "Linux"
  | .windows => "Windows"
  | .macOs => "MacOS"

/-- Whether a name is one of the two names of a symbol. Mirrors the test of
`PlatformSymbol.from_name`. -/
def isNamed (symbol : PlatformSymbol) (name : Name) : Bool :=
  name == ⟨symbol.russianName⟩ || name == ⟨symbol.englishName⟩

/-- The symbol with a given name, in either language and any case. Mirrors
`PlatformSymbol.from_name`. -/
def ofName? (name : Name) : Option PlatformSymbol := all.find? fun symbol => symbol.isNamed name

/-- A name is looked up by what it is compared by. -/
theorem ofName?_congr {a b : Name} (h : (a == b) = true) : ofName? a = ofName? b := by
  have named : ∀ s : PlatformSymbol, s.isNamed a = s.isNamed b := fun s => by
    simp only [isNamed, BEq.congr_left h]
  simp only [ofName?, named]

/-- Symbols are shown by their Russian names. Mirrors `PlatformSymbol.fmt`. -/
instance : ToString PlatformSymbol := ⟨russianName⟩

end PlatformSymbol
end BuiltInScript.Module
