import SoloScenario.Dialect.Basic

/-!
# The table of dialects

The keywords of every supported dialect, and `Dialect.ofCode`, which looks
a dialect up by its code.  Codes are compared exactly, and no code occurs
twice (`codes_nodup`).
-/

namespace SoloScenario.Dialect

/-- The keywords for the code af. -/
def afrikaans : Dialect where
  code := "af"
  feature := ["Funksie", "Besigheid Behoefte", "Vermoë"]
  background := ["Agtergrond"]
  rule := ["Regel"]
  scenario := ["Voorbeeld", "Situasie"]
  outline := ["Situasie Uiteensetting"]
  examples := ["Voorbeelde"]
  givenWords := ["* ", "Gegewe "]
  whenWords := ["* ", "Wanneer "]
  thenWords := ["* ", "Dan "]
  andWords := ["* ", "En "]
  butWords := ["* ", "Maar "]

/-- The keywords for the code am. -/
def armenian : Dialect where
  code := "am"
  feature := ["Ֆունկցիոնալություն", "Հատկություն"]
  background := ["Կոնտեքստ"]
  rule := ["Rule"]
  scenario := ["Օրինակ", "Սցենար"]
  outline := ["Սցենարի կառուցվացքը"]
  examples := ["Օրինակներ"]
  givenWords := ["* ", "Դիցուք "]
  whenWords := ["* ", "Եթե ", "Երբ "]
  thenWords := ["* ", "Ապա "]
  andWords := ["* ", "Եվ "]
  butWords := ["* ", "Բայց "]

/-- The keywords for the code an. -/
def aragonese : Dialect where
  code := "an"
  feature := ["Caracteristica"]
  background := ["Antecedents"]
  rule := ["Rule"]
  scenario := ["Eixemplo", "Caso"]
  outline := ["Esquema del caso"]
  examples := ["Eixemplos"]
  givenWords := ["* ", "Dau ", "Dada ", "Daus ", "Dadas "]
  whenWords := ["* ", "Cuan "]
  thenWords := ["* ", "Alavez ", "Allora ", "Antonces "]
  andWords := ["* ", "Y ", "E "]
  butWords := ["* ", "Pero "]

/-- The keywords for the code ar. -/
def arabic : Dialect where
  code := "ar"
  feature := ["خاصية"]
  background := ["الخلفية"]
  rule := ["Rule"]
  scenario := ["مثال", "سيناريو"]
  outline := ["سيناريو مخطط"]
  examples := ["امثلة"]
  givenWords := ["* ", "بفرض "]
  whenWords := ["* ", "متى ", "عندما "]
  thenWords := ["* ", "اذاً ", "ثم "]
  andWords := ["* ", "و "]
  butWords := ["* ", "لكن "]

/-- The keywords for the code ast. -/
def asturian : Dialect where
  code := "ast"
  feature := ["Carauterística"]
  background := ["Antecedentes"]
  rule := ["Rule"]
  scenario := ["Exemplo", "Casu"]
  outline := ["Esbozu del casu"]
  examples := ["Exemplos"]
  givenWords := ["* ", "Dáu ", "Dada ", "Daos ", "Daes "]
  whenWords := ["* ", "Cuando "]
  thenWords := ["* ", "Entós "]
  andWords := ["* ", "Y ", "Ya "]
  butWords := ["* ", "Peru "]

/-- The keywords for the code az. -/
def azerbaijani : Dialect where
  code := "az"
  feature := ["Özəllik"]
  background := ["Keçmiş", "Kontekst"]
  rule := ["Rule"]
  scenario := ["Nümunə", "Ssenari"]
  outline := ["Ssenarinin strukturu"]
  examples := ["Nümunələr"]
  givenWords := ["* ", "Tutaq ki ", "Verilir "]
  whenWords := ["* ", "Əgər ", "Nə vaxt ki "]
  thenWords := ["* ", "O halda "]
  andWords := ["* ", "Və ", "Həm "]
  butWords := ["* ", "Amma ", "Ancaq "]

/-- The keywords for the code bg. -/
def bulgarian : Dialect where
  code := "bg"
  feature := ["Функционалност"]
  background := ["Предистория"]
  rule := ["Правило"]
  scenario := ["Пример", "Сценарий"]
  outline := ["Рамка на сценарий"]
  examples := ["Примери"]
  givenWords := ["* ", "Дадено "]
  whenWords := ["* ", "Когато "]
  thenWords := ["* ", "То "]
  andWords := ["* ", "И "]
  butWords := ["* ", "Но "]

/-- The keywords for the code bm. -/
def malay : Dialect where
  code := "bm"
  feature := ["Fungsi"]
  background := ["Latar Belakang"]
  rule := ["Rule"]
  scenario := ["Senario", "Situasi", "Keadaan"]
  outline := ["Kerangka Senario", "Kerangka Situasi", "Kerangka Keadaan",
    "Garis Panduan Senario"]
  examples := ["Contoh"]
  givenWords := ["* ", "Diberi ", "Bagi "]
  whenWords := ["* ", "Apabila "]
  thenWords := ["* ", "Maka ", "Kemudian "]
  andWords := ["* ", "Dan "]
  butWords := ["* ", "Tetapi ", "Tapi "]

/-- The keywords for the code bs. -/
def bosnian : Dialect where
  code := "bs"
  feature := ["Karakteristika"]
  background := ["Pozadina"]
  rule := ["Rule"]
  scenario := ["Primjer", "Scenariju", "Scenario"]
  outline := ["Scenariju-obris", "Scenario-outline"]
  examples := ["Primjeri"]
  givenWords := ["* ", "Dato "]
  whenWords := ["* ", "Kada "]
  thenWords := ["* ", "Zatim "]
  andWords := ["* ", "I ", "A "]
  butWords := ["* ", "Ali "]

/-- The keywords for the code ca. -/
def catalan : Dialect where
  code := "ca"
  feature := ["Característica", "Funcionalitat"]
  background := ["Rerefons", "Antecedents"]
  rule := ["Rule"]
  scenario := ["Exemple", "Escenari"]
  outline := ["Esquema de l'escenari"]
  examples := ["Exemples"]
  givenWords := ["* ", "Donat ", "Donada ", "Atès ", "Atesa "]
  whenWords := ["* ", "Quan "]
  thenWords := ["* ", "Aleshores ", "Cal "]
  andWords := ["* ", "I "]
  butWords := ["* ", "Però "]

/-- The keywords for the code cs. -/
def czech : Dialect where
  code := "cs"
  feature := ["Požadavek"]
  background := ["Pozadí", "Kontext"]
  rule := ["Pravidlo"]
  scenario := ["Příklad", "Scénář"]
  outline := ["Náčrt Scénáře", "Osnova scénáře"]
  examples := ["Příklady"]
  givenWords := ["* ", "Pokud ", "Za předpokladu "]
  whenWords := ["* ", "Když "]
  thenWords := ["* ", "Pak "]
  andWords := ["* ", "A také ", "A "]
  butWords := ["* ", "Ale "]

/-- The keywords for the code cy-GB. -/
def welsh : Dialect where
  code := "cy-GB"
  feature := ["Arwedd"]
  background := ["Cefndir"]
  rule := ["Rule"]
  scenario := ["Enghraifft", "Scenario"]
  outline := ["Scenario Amlinellol"]
  examples := ["Enghreifftiau"]
  givenWords := ["* ", "Anrhegedig a "]
  whenWords := ["* ", "Pryd "]
  thenWords := ["* ", "Yna "]
  andWords := ["* ", "A "]
  butWords := ["* ", "Ond "]

/-- The keywords for the code da. -/
def danish : Dialect where
  code := "da"
  feature := ["Egenskab"]
  background := ["Baggrund"]
  rule := ["Rule"]
  scenario := ["Eksempel", "Scenarie"]
  outline := ["Abstrakt Scenario"]
  examples := ["Eksempler"]
  givenWords := ["* ", "Givet "]
  whenWords := ["* ", "Når "]
  thenWords := ["* ", "Så "]
  andWords := ["* ", "Og "]
  butWords := ["* ", "Men "]

/-- The keywords for the code de. -/
def german : Dialect where
  code := "de"
  feature := ["Funktionalität", "Funktion"]
  background := ["Grundlage", "Hintergrund", "Voraussetzungen",
    "Vorbedingungen"]
  rule := ["Rule", "Regel"]
  scenario := ["Beispiel", "Szenario"]
  outline := ["Szenariogrundriss", "Szenarien"]
  examples := ["Beispiele"]
  givenWords := ["* ", "Angenommen ", "Gegeben sei ", "Gegeben seien "]
  whenWords := ["* ", "Wenn "]
  thenWords := ["* ", "Dann "]
  andWords := ["* ", "Und "]
  butWords := ["* ", "Aber "]

/-- The keywords for the code el. -/
def greek : Dialect where
  code := "el"
  feature := ["Δυνατότητα", "Λειτουργία"]
  background := ["Υπόβαθρο"]
  rule := ["Rule"]
  scenario := ["Παράδειγμα", "Σενάριο"]
  outline := ["Περιγραφή Σεναρίου", "Περίγραμμα Σεναρίου"]
  examples := ["Παραδείγματα", "Σενάρια"]
  givenWords := ["* ", "Δεδομένου "]
  whenWords := ["* ", "Όταν "]
  thenWords := ["* ", "Τότε "]
  andWords := ["* ", "Και "]
  butWords := ["* ", "Αλλά "]

/-- The keywords for the code em. -/
def emoji : Dialect where
  code := "em"
  feature := ["📚"]
  background := ["💤"]
  rule := ["Rule"]
  scenario := ["🥒", "📕"]
  outline := ["📖"]
  examples := ["📓"]
  givenWords := ["* ", "😐"]
  whenWords := ["* ", "🎬"]
  thenWords := ["* ", "🙏"]
  andWords := ["* ", "😂"]
  butWords := ["* ", "😔"]

/-- The keywords for the code en. -/
def english : Dialect where
  code := "en"
  feature := ["Feature", "Business Need", "Ability"]
  background := ["Background"]
  rule := ["Rule"]
  scenario := ["Example", "Scenario"]
  outline := ["Scenario Outline", "Scenario Template"]
  examples := ["Examples", "Scenarios"]
  givenWords := ["* ", "Given "]
  whenWords := ["* ", "When "]
  thenWords := ["* ", "Then "]
  andWords := ["* ", "And "]
  butWords := ["* ", "But "]

/-- The keywords for the code en-Scouse. -/
def scouse : Dialect where
  code := "en-Scouse"
  feature := ["Feature"]
  background := ["Dis is what went down"]
  rule := ["Rule"]
  scenario := ["The thing of it is"]
  outline := ["Wharrimean is"]
  examples := ["Examples"]
  givenWords := ["* ", "Givun ", "Youse know when youse got "]
  whenWords := ["* ", "Wun ", "Youse know like when "]
  thenWords := ["* ", "Dun ", "Den youse gotta "]
  andWords := ["* ", "An "]
  butWords := ["* ", "Buh "]

/-- The keywords for the code en-au. -/
def australian : Dialect where
  code := "en-au"
  feature := ["Pretty much"]
  background := ["First off"]
  rule := ["Rule"]
  scenario := ["Awww, look mate"]
  outline := ["Reckon it's like"]
  examples := ["You'll wanna"]
  givenWords := ["* ", "Y'know "]
  whenWords := ["* ", "It's just unbelievable "]
  thenWords := ["* ", "But at the end of the day I reckon "]
  andWords := ["* ", "Too right "]
  butWords := ["* ", "Yeah nah "]

/-- The keywords for the code en-lol. -/
def lolcat : Dialect where
  code := "en-lol"
  feature := ["OH HAI"]
  background := ["B4"]
  rule := ["Rule"]
  scenario := ["MISHUN"]
  outline := ["MISHUN SRSLY"]
  examples := ["EXAMPLZ"]
  givenWords := ["* ", "I CAN HAZ "]
  whenWords := ["* ", "WEN "]
  thenWords := ["* ", "DEN "]
  andWords := ["* ", "AN "]
  butWords := ["* ", "BUT "]

/-- The keywords for the code en-old. -/
def oldEnglish : Dialect where
  code := "en-old"
  feature := ["Hwaet", "Hwæt"]
  background := ["Aer", "Ær"]
  rule := ["Rule"]
  scenario := ["Swa"]
  outline := ["Swa hwaer swa", "Swa hwær swa"]
  examples := ["Se the", "Se þe", "Se ðe"]
  givenWords := ["* ", "Thurh ", "Þurh ", "Ðurh "]
  whenWords := ["* ", "Tha ", "Þa ", "Ða "]
  thenWords := ["* ", "Tha ", "Þa ", "Ða ", "Tha the ", "Þa þe ", "Ða ðe "]
  andWords := ["* ", "Ond ", "7 "]
  butWords := ["* ", "Ac "]

/-- The keywords for the code en-pirate. -/
def pirate : Dialect where
  code := "en-pirate"
  feature := ["Ahoy matey!"]
  background := ["Yo-ho-ho"]
  rule := ["Rule"]
  scenario := ["Heave to"]
  outline := ["Shiver me timbers"]
  examples := ["Dead men tell no tales"]
  givenWords := ["* ", "Gangway! "]
  whenWords := ["* ", "Blimey! "]
  thenWords := ["* ", "Let go and haul "]
  andWords := ["* ", "Aye "]
  butWords := ["* ", "Avast! "]

/-- The keywords for the code en-tx. -/
def texan : Dialect where
  code := "en-tx"
  feature := ["This ain’t my first rodeo", "All gussied up"]
  background := ["Lemme tell y'all a story"]
  rule := ["Rule "]
  scenario := ["All hat and no cattle"]
  outline := ["Serious as a snake bite", "Busy as a hound in flea season"]
  examples := ["Now that's a story longer than a cattle drive in July"]
  givenWords := ["Fixin' to ", "All git out "]
  whenWords := ["Quick out of the chute "]
  thenWords := ["There’s no tree but bears some fruit "]
  andWords := ["Come hell or high water "]
  butWords := ["Well now hold on, I'll you what "]

/-- The keywords for the code eo. -/
def esperanto : Dialect where
  code := "eo"
  feature := ["Trajto"]
  background := ["Fono"]
  rule := ["Rule"]
  scenario := ["Ekzemplo", "Scenaro", "Kazo"]
  outline := ["Konturo de la scenaro", "Skizo", "Kazo-skizo"]
  examples := ["Ekzemploj"]
  givenWords := ["* ", "Donitaĵo ", "Komence "]
  whenWords := ["* ", "Se "]
  thenWords := ["* ", "Do "]
  andWords := ["* ", "Kaj "]
  butWords := ["* ", "Sed "]

/-- The keywords for the code es. -/
def spanish : Dialect where
  code := "es"
  feature := ["Característica", "Necesidad del negocio", "Requisito"]
  background := ["Antecedentes"]
  rule := ["Regla", "Regla de negocio"]
  scenario := ["Ejemplo", "Escenario"]
  outline := ["Esquema del escenario"]
  examples := ["Ejemplos"]
  givenWords := ["* ", "Dado ", "Dada ", "Dados ", "Dadas "]
  whenWords := ["* ", "Cuando "]
  thenWords := ["* ", "Entonces "]
  andWords := ["* ", "Y ", "E "]
  butWords := ["* ", "Pero "]

/-- The keywords for the code et. -/
def estonian : Dialect where
  code := "et"
  feature := ["Omadus"]
  background := ["Taust"]
  rule := ["Reegel"]
  scenario := ["Juhtum", "Stsenaarium"]
  outline := ["Raamjuhtum", "Raamstsenaarium"]
  examples := ["Juhtumid"]
  givenWords := ["* ", "Eeldades "]
  whenWords := ["* ", "Kui "]
  thenWords := ["* ", "Siis "]
  andWords := ["* ", "Ja "]
  butWords := ["* ", "Kuid "]

/-- The keywords for the code fa. -/
def persian : Dialect where
  code := "fa"
  feature := ["وِیژگی"]
  background := ["زمینه"]
  rule := ["Rule"]
  scenario := ["مثال", "سناریو"]
  outline := ["الگوی سناریو"]
  examples := ["نمونه ها"]
  givenWords := ["* ", "با فرض "]
  whenWords := ["* ", "هنگامی "]
  thenWords := ["* ", "آنگاه "]
  andWords := ["* ", "و "]
  butWords := ["* ", "اما "]

/-- The keywords for the code fi. -/
def finnish : Dialect where
  code := "fi"
  feature := ["Ominaisuus"]
  background := ["Tausta"]
  rule := ["Rule"]
  scenario := ["Tapaus"]
  outline := ["Tapausaihio"]
  examples := ["Tapaukset"]
  givenWords := ["* ", "Oletetaan "]
  whenWords := ["* ", "Kun "]
  thenWords := ["* ", "Niin "]
  andWords := ["* ", "Ja "]
  butWords := ["* ", "Mutta "]

/-- The keywords for the code fr. -/
def french : Dialect where
  code := "fr"
  feature := ["Fonctionnalité"]
  background := ["Contexte"]
  rule := ["Règle"]
  scenario := ["Exemple", "Scénario"]
  outline := ["Plan du scénario", "Plan du Scénario"]
  examples := ["Exemples"]
  givenWords := ["* ", "Soit ", "Sachant que ", "Sachant qu'", "Sachant ",
    "Etant donné que ", "Etant donné qu'", "Etant donné ", "Etant donnée ",
    "Etant donnés ", "Etant données ", "Étant donné que ", "Étant donné qu'",
    "Étant donné ", "Étant donnée ", "Étant donnés ", "Étant données "]
  whenWords := ["* ", "Quand ", "Lorsque ", "Lorsqu'"]
  thenWords := ["* ", "Alors ", "Donc "]
  andWords := ["* ", "Et que ", "Et qu'", "Et "]
  butWords := ["* ", "Mais que ", "Mais qu'", "Mais "]

/-- The keywords for the code ga. -/
def irish : Dialect where
  code := "ga"
  feature := ["Gné"]
  background := ["Cúlra"]
  rule := ["Rule"]
  scenario := ["Sampla", "Cás"]
  outline := ["Cás Achomair"]
  examples := ["Samplaí"]
  givenWords := ["* ", "Cuir i gcás go", "Cuir i gcás nach",
    "Cuir i gcás gur", "Cuir i gcás nár"]
  whenWords := ["* ", "Nuair a", "Nuair nach", "Nuair ba", "Nuair nár"]
  thenWords := ["* ", "Ansin"]
  andWords := ["* ", "Agus"]
  butWords := ["* ", "Ach"]

/-- The keywords for the code gj. -/
def gujarati : Dialect where
  code := "gj"
  feature := ["લક્ષણ", "વ્યાપાર જરૂર", "ક્ષમતા"]
  background := ["બેકગ્રાઉન્ડ"]
  rule := ["Rule"]
  scenario := ["ઉદાહરણ", "સ્થિતિ"]
  outline := ["પરિદ્દશ્ય રૂપરેખા", "પરિદ્દશ્ય ઢાંચો"]
  examples := ["ઉદાહરણો"]
  givenWords := ["* ", "આપેલ છે "]
  whenWords := ["* ", "ક્યારે "]
  thenWords := ["* ", "પછી "]
  andWords := ["* ", "અને "]
  butWords := ["* ", "પણ "]

/-- The keywords for the code gl. -/
def galician : Dialect where
  code := "gl"
  feature := ["Característica"]
  background := ["Contexto"]
  rule := ["Rule"]
  scenario := ["Exemplo", "Escenario"]
  outline := ["Esbozo do escenario"]
  examples := ["Exemplos"]
  givenWords := ["* ", "Dado ", "Dada ", "Dados ", "Dadas "]
  whenWords := ["* ", "Cando "]
  thenWords := ["* ", "Entón ", "Logo "]
  andWords := ["* ", "E "]
  butWords := ["* ", "Mais ", "Pero "]

/-- The keywords for the code he. -/
def hebrew : Dialect where
  code := "he"
  feature := ["תכונה"]
  background := ["רקע"]
  rule := ["כלל"]
  scenario := ["דוגמא", "תרחיש"]
  outline := ["תבנית תרחיש"]
  examples := ["דוגמאות"]
  givenWords := ["* ", "בהינתן "]
  whenWords := ["* ", "כאשר "]
  thenWords := ["* ", "אז ", "אזי "]
  andWords := ["* ", "וגם "]
  butWords := ["* ", "אבל "]

/-- The keywords for the code hi. -/
def hindi : Dialect where
  code := "hi"
  feature := ["रूप लेख"]
  background := ["पृष्ठभूमि"]
  rule := ["नियम"]
  scenario := ["परिदृश्य"]
  outline := ["परिदृश्य रूपरेखा"]
  examples := ["उदाहरण"]
  givenWords := ["* ", "अगर ", "यदि ", "चूंकि "]
  whenWords := ["* ", "जब ", "कदा "]
  thenWords := ["* ", "तब ", "तदा "]
  andWords := ["* ", "और ", "तथा "]
  butWords := ["* ", "पर ", "परन्तु ", "किन्तु "]

/-- The keywords for the code hr. -/
def croatian : Dialect where
  code := "hr"
  feature := ["Osobina", "Mogućnost", "Mogucnost"]
  background := ["Pozadina"]
  rule := ["Rule"]
  scenario := ["Primjer", "Scenarij"]
  outline := ["Skica", "Koncept"]
  examples := ["Primjeri", "Scenariji"]
  givenWords := ["* ", "Zadan ", "Zadani ", "Zadano ", "Ukoliko "]
  whenWords := ["* ", "Kada ", "Kad "]
  thenWords := ["* ", "Onda "]
  andWords := ["* ", "I "]
  butWords := ["* ", "Ali "]

/-- The keywords for the code ht. -/
def creole : Dialect where
  code := "ht"
  feature := ["Karakteristik", "Mak", "Fonksyonalite"]
  background := ["Kontèks", "Istorik"]
  rule := ["Rule"]
  scenario := ["Senaryo"]
  outline := ["Plan senaryo", "Plan Senaryo", "Senaryo deskripsyon",
    "Senaryo Deskripsyon", "Dyagram senaryo", "Dyagram Senaryo"]
  examples := ["Egzanp"]
  givenWords := ["* ", "Sipoze ", "Sipoze ke ", "Sipoze Ke "]
  whenWords := ["* ", "Lè ", "Le "]
  thenWords := ["* ", "Lè sa a ", "Le sa a "]
  andWords := ["* ", "Ak ", "Epi ", "E "]
  butWords := ["* ", "Men "]

/-- The keywords for the code hu. -/
def hungarian : Dialect where
  code := "hu"
  feature := ["Jellemző"]
  background := ["Háttér"]
  rule := ["Szabály"]
  scenario := ["Példa", "Forgatókönyv"]
  outline := ["Forgatókönyv vázlat"]
  examples := ["Példák"]
  givenWords := ["* ", "Amennyiben ", "Adott "]
  whenWords := ["* ", "Majd ", "Ha ", "Amikor "]
  thenWords := ["* ", "Akkor "]
  andWords := ["* ", "És "]
  butWords := ["* ", "De "]

/-- The keywords for the code id. -/
def indonesian : Dialect where
  code := "id"
  feature := ["Fitur"]
  background := ["Dasar", "Latar Belakang"]
  rule := ["Rule", "Aturan"]
  scenario := ["Skenario"]
  outline := ["Skenario konsep", "Garis-Besar Skenario"]
  examples := ["Contoh", "Misal"]
  givenWords := ["* ", "Dengan ", "Diketahui ", "Diasumsikan ", "Bila ",
    "Jika "]
  whenWords := ["* ", "Ketika "]
  thenWords := ["* ", "Maka ", "Kemudian "]
  andWords := ["* ", "Dan "]
  butWords := ["* ", "Tapi ", "Tetapi "]

/-- The keywords for the code is. -/
def icelandic : Dialect where
  code := "is"
  feature := ["Eiginleiki"]
  background := ["Bakgrunnur"]
  rule := ["Rule"]
  scenario := ["Atburðarás"]
  outline := ["Lýsing Atburðarásar", "Lýsing Dæma"]
  examples := ["Dæmi", "Atburðarásir"]
  givenWords := ["* ", "Ef "]
  whenWords := ["* ", "Þegar "]
  thenWords := ["* ", "Þá "]
  andWords := ["* ", "Og "]
  butWords := ["* ", "En "]

/-- The keywords for the code it. -/
def italian : Dialect where
  code := "it"
  feature := ["Funzionalità", "Esigenza di Business", "Abilità"]
  background := ["Contesto"]
  rule := ["Regola"]
  scenario := ["Esempio", "Scenario"]
  outline := ["Schema dello scenario"]
  examples := ["Esempi"]
  givenWords := ["* ", "Dato ", "Data ", "Dati ", "Date "]
  whenWords := ["* ", "Quando "]
  thenWords := ["* ", "Allora "]
  andWords := ["* ", "E "]
  butWords := ["* ", "Ma "]

/-- The keywords for the code ja. -/
def japanese : Dialect where
  code := "ja"
  feature := ["フィーチャ", "機能"]
  background := ["背景"]
  rule := ["Rule"]
  scenario := ["シナリオ"]
  outline := ["シナリオアウトライン", "シナリオテンプレート", "テンプレ", "シナリオテンプレ"]
  examples := ["例", "サンプル"]
  givenWords := ["* ", "前提"]
  whenWords := ["* ", "もし"]
  thenWords := ["* ", "ならば"]
  andWords := ["* ", "かつ"]
  butWords := ["* ", "しかし", "但し", "ただし"]

/-- The keywords for the code jv. -/
def javanese : Dialect where
  code := "jv"
  feature := ["Fitur"]
  background := ["Dasar"]
  rule := ["Rule"]
  scenario := ["Skenario"]
  outline := ["Konsep skenario"]
  examples := ["Conto", "Contone"]
  givenWords := ["* ", "Nalika ", "Nalikaning "]
  whenWords := ["* ", "Manawa ", "Menawa "]
  thenWords := ["* ", "Njuk ", "Banjur "]
  andWords := ["* ", "Lan "]
  butWords := ["* ", "Tapi ", "Nanging ", "Ananging "]

/-- The keywords for the code ka. -/
def georgian : Dialect where
  code := "ka"
  feature := ["თვისება"]
  background := ["კონტექსტი"]
  rule := ["Rule"]
  scenario := ["მაგალითად", "სცენარის"]
  outline := ["სცენარის ნიმუში"]
  examples := ["მაგალითები"]
  givenWords := ["* ", "მოცემული"]
  whenWords := ["* ", "როდესაც"]
  thenWords := ["* ", "მაშინ"]
  andWords := ["* ", "და"]
  butWords := ["* ", "მაგ\u00adრამ"]

/-- The keywords for the code kn. -/
def kannada : Dialect where
  code := "kn"
  feature := ["ಹೆಚ್ಚಳ"]
  background := ["ಹಿನ್ನೆಲೆ"]
  rule := ["Rule"]
  scenario := ["ಉದಾಹರಣೆ", "ಕಥಾಸಾರಾಂಶ"]
  outline := ["ವಿವರಣೆ"]
  examples := ["ಉದಾಹರಣೆಗಳು"]
  givenWords := ["* ", "ನೀಡಿದ "]
  whenWords := ["* ", "ಸ್ಥಿತಿಯನ್ನು "]
  thenWords := ["* ", "ನಂತರ "]
  andWords := ["* ", "ಮತ್ತು "]
  butWords := ["* ", "ಆದರೆ "]

/-- The keywords for the code ko. -/
def korean : Dialect where
  code := "ko"
  feature := ["기능"]
  background := ["배경"]
  rule := ["Rule"]
  scenario := ["시나리오"]
  outline := ["시나리오 개요"]
  examples := ["예"]
  givenWords := ["* ", "조건", "먼저"]
  whenWords := ["* ", "만일", "만약"]
  thenWords := ["* ", "그러면"]
  andWords := ["* ", "그리고"]
  butWords := ["* ", "하지만", "단"]

/-- The keywords for the code lt. -/
def lithuanian : Dialect where
  code := "lt"
  feature := ["Savybė"]
  background := ["Kontekstas"]
  rule := ["Rule"]
  scenario := ["Pavyzdys", "Scenarijus"]
  outline := ["Scenarijaus šablonas"]
  examples := ["Pavyzdžiai", "Scenarijai", "Variantai"]
  givenWords := ["* ", "Duota "]
  whenWords := ["* ", "Kai "]
  thenWords := ["* ", "Tada "]
  andWords := ["* ", "Ir "]
  butWords := ["* ", "Bet "]

/-- The keywords for the code lu. -/
def luxemburgish : Dialect where
  code := "lu"
  feature := ["Funktionalitéit"]
  background := ["Hannergrond"]
  rule := ["Rule"]
  scenario := ["Beispill", "Szenario"]
  outline := ["Plang vum Szenario"]
  examples := ["Beispiller"]
  givenWords := ["* ", "ugeholl "]
  whenWords := ["* ", "wann "]
  thenWords := ["* ", "dann "]
  andWords := ["* ", "an ", "a "]
  butWords := ["* ", "awer ", "mä "]

/-- The keywords for the code lv. -/
def latvian : Dialect where
  code := "lv"
  feature := ["Funkcionalitāte", "Fīča"]
  background := ["Konteksts", "Situācija"]
  rule := ["Rule"]
  scenario := ["Piemērs", "Scenārijs"]
  outline := ["Scenārijs pēc parauga"]
  examples := ["Piemēri", "Paraugs"]
  givenWords := ["* ", "Kad "]
  whenWords := ["* ", "Ja "]
  thenWords := ["* ", "Tad "]
  andWords := ["* ", "Un "]
  butWords := ["* ", "Bet "]

/-- The keywords for the code mk-Cyrl. -/
def macedonian : Dialect where
  code := "mk-Cyrl"
  feature := ["Функционалност", "Бизнис потреба", "Можност"]
  background := ["Контекст", "Содржина"]
  rule := ["Rule"]
  scenario := ["Пример", "Сценарио", "На пример"]
  outline := ["Преглед на сценарија", "Скица", "Концепт"]
  examples := ["Примери", "Сценарија"]
  givenWords := ["* ", "Дадено ", "Дадена "]
  whenWords := ["* ", "Кога "]
  thenWords := ["* ", "Тогаш "]
  andWords := ["* ", "И "]
  butWords := ["* ", "Но "]

/-- The keywords for the code mk-Latn. -/
def macedonianLatin : Dialect where
  code := "mk-Latn"
  feature := ["Funkcionalnost", "Biznis potreba", "Mozhnost"]
  background := ["Kontekst", "Sodrzhina"]
  rule := ["Rule"]
  scenario := ["Scenario", "Na primer"]
  outline := ["Pregled na scenarija", "Skica", "Koncept"]
  examples := ["Primeri", "Scenaria"]
  givenWords := ["* ", "Dadeno ", "Dadena "]
  whenWords := ["* ", "Koga "]
  thenWords := ["* ", "Togash "]
  andWords := ["* ", "I "]
  butWords := ["* ", "No "]

/-- The keywords for the code mn. -/
def mongolian : Dialect where
  code := "mn"
  feature := ["Функц", "Функционал"]
  background := ["Агуулга"]
  rule := ["Rule"]
  scenario := ["Сценар"]
  outline := ["Сценарын төлөвлөгөө"]
  examples := ["Тухайлбал"]
  givenWords := ["* ", "Өгөгдсөн нь ", "Анх "]
  whenWords := ["* ", "Хэрэв "]
  thenWords := ["* ", "Тэгэхэд ", "Үүний дараа "]
  andWords := ["* ", "Мөн ", "Тэгээд "]
  butWords := ["* ", "Гэхдээ ", "Харин "]

/-- The keywords for the code ne. -/
def nepali : Dialect where
  code := "ne"
  feature := ["सुविधा", "विशेषता"]
  background := ["पृष्ठभूमी"]
  rule := ["नियम"]
  scenario := ["परिदृश्य"]
  outline := ["परिदृश्य रूपरेखा"]
  examples := ["उदाहरण", "उदाहरणहरु"]
  givenWords := ["* ", "दिइएको ", "दिएको ", "यदि "]
  whenWords := ["* ", "जब "]
  thenWords := ["* ", "त्यसपछि ", "अनी "]
  andWords := ["* ", "र ", "अनी "]
  butWords := ["* ", "तर "]

/-- The keywords for the code nl. -/
def dutch : Dialect where
  code := "nl"
  feature := ["Functionaliteit"]
  background := ["Achtergrond"]
  rule := ["Rule"]
  scenario := ["Voorbeeld", "Scenario"]
  outline := ["Abstract Scenario"]
  examples := ["Voorbeelden"]
  givenWords := ["* ", "Gegeven ", "Stel "]
  whenWords := ["* ", "Als ", "Wanneer "]
  thenWords := ["* ", "Dan "]
  andWords := ["* ", "En "]
  butWords := ["* ", "Maar "]

/-- The keywords for the code no. -/
def norwegian : Dialect where
  code := "no"
  feature := ["Egenskap"]
  background := ["Bakgrunn"]
  rule := ["Regel"]
  scenario := ["Eksempel", "Scenario"]
  outline := ["Scenariomal", "Abstrakt Scenario"]
  examples := ["Eksempler"]
  givenWords := ["* ", "Gitt "]
  whenWords := ["* ", "Når "]
  thenWords := ["* ", "Så "]
  andWords := ["* ", "Og "]
  butWords := ["* ", "Men "]

/-- The keywords for the code pa. -/
def panjabi : Dialect where
  code := "pa"
  feature := ["ਖਾਸੀਅਤ", "ਮੁਹਾਂਦਰਾ", "ਨਕਸ਼ ਨੁਹਾਰ"]
  background := ["ਪਿਛੋਕੜ"]
  rule := ["Rule"]
  scenario := ["ਉਦਾਹਰਨ", "ਪਟਕਥਾ"]
  outline := ["ਪਟਕਥਾ ਢਾਂਚਾ", "ਪਟਕਥਾ ਰੂਪ ਰੇਖਾ"]
  examples := ["ਉਦਾਹਰਨਾਂ"]
  givenWords := ["* ", "ਜੇਕਰ ", "ਜਿਵੇਂ ਕਿ "]
  whenWords := ["* ", "ਜਦੋਂ "]
  thenWords := ["* ", "ਤਦ "]
  andWords := ["* ", "ਅਤੇ "]
  butWords := ["* ", "ਪਰ "]

/-- The keywords for the code pl. -/
def polish : Dialect where
  code := "pl"
  feature := ["Właściwość", "Funkcja", "Aspekt", "Potrzeba biznesowa"]
  background := ["Założenia"]
  rule := ["Zasada", "Reguła"]
  scenario := ["Przykład", "Scenariusz"]
  outline := ["Szablon scenariusza"]
  examples := ["Przykłady"]
  givenWords := ["* ", "Zakładając ", "Mając ", "Zakładając, że "]
  whenWords := ["* ", "Jeżeli ", "Jeśli ", "Gdy ", "Kiedy "]
  thenWords := ["* ", "Wtedy "]
  andWords := ["* ", "Oraz ", "I "]
  butWords := ["* ", "Ale "]

/-- The keywords for the code pt. -/
def portuguese : Dialect where
  code := "pt"
  feature := ["Funcionalidade", "Característica", "Caracteristica"]
  background := ["Contexto", "Cenário de Fundo", "Cenario de Fundo", "Fundo"]
  rule := ["Regra"]
  scenario := ["Exemplo", "Cenário", "Cenario"]
  outline := ["Esquema do Cenário", "Esquema do Cenario",
    "Delineação do Cenário", "Delineacao do Cenario"]
  examples := ["Exemplos", "Cenários", "Cenarios"]
  givenWords := ["* ", "Dado ", "Dada ", "Dados ", "Dadas "]
  whenWords := ["* ", "Quando "]
  thenWords := ["* ", "Então ", "Entao "]
  andWords := ["* ", "E "]
  butWords := ["* ", "Mas "]

/-- The keywords for the code ro. -/
def romanian : Dialect where
  code := "ro"
  feature := ["Functionalitate", "Funcționalitate", "Funcţionalitate"]
  background := ["Context"]
  rule := ["Rule"]
  scenario := ["Exemplu", "Scenariu"]
  outline := ["Structura scenariu", "Structură scenariu"]
  examples := ["Exemple"]
  givenWords := ["* ", "Date fiind ", "Dat fiind ", "Dată fiind",
    "Dati fiind ", "Dați fiind ", "Daţi fiind "]
  whenWords := ["* ", "Cand ", "Când "]
  thenWords := ["* ", "Atunci "]
  andWords := ["* ", "Si ", "Și ", "Şi "]
  butWords := ["* ", "Dar "]

/-- The keywords for the code ru. -/
def russian : Dialect where
  code := "ru"
  feature := ["Функция", "Функциональность", "Функционал", "Свойство"]
  background := ["Предыстория", "Контекст"]
  rule := ["Правило"]
  scenario := ["Пример", "Сценарий"]
  outline := ["Структура сценария", "Шаблон сценария"]
  examples := ["Примеры"]
  givenWords := ["* ", "Допустим ", "Дано ", "Пусть "]
  whenWords := ["* ", "Когда ", "Если "]
  thenWords := ["* ", "То ", "Затем ", "Тогда "]
  andWords := ["* ", "И ", "К тому же ", "Также "]
  butWords := ["* ", "Но ", "А ", "Иначе "]

/-- The keywords for the code sk. -/
def slovak : Dialect where
  code := "sk"
  feature := ["Požiadavka", "Funkcia", "Vlastnosť"]
  background := ["Pozadie"]
  rule := ["Rule"]
  scenario := ["Príklad", "Scenár"]
  outline := ["Náčrt Scenáru", "Náčrt Scenára", "Osnova Scenára"]
  examples := ["Príklady"]
  givenWords := ["* ", "Pokiaľ ", "Za predpokladu "]
  whenWords := ["* ", "Keď ", "Ak "]
  thenWords := ["* ", "Tak ", "Potom "]
  andWords := ["* ", "A ", "A tiež ", "A taktiež ", "A zároveň "]
  butWords := ["* ", "Ale "]

/-- The keywords for the code sl. -/
def slovenian : Dialect where
  code := "sl"
  feature := ["Funkcionalnost", "Funkcija", "Možnosti", "Moznosti",
    "Lastnost", "Značilnost"]
  background := ["Kontekst", "Osnova", "Ozadje"]
  rule := ["Rule"]
  scenario := ["Primer", "Scenarij"]
  outline := ["Struktura scenarija", "Skica", "Koncept", "Oris scenarija",
    "Osnutek"]
  examples := ["Primeri", "Scenariji"]
  givenWords := ["Dano ", "Podano ", "Zaradi ", "Privzeto "]
  whenWords := ["Ko ", "Ce ", "Če ", "Kadar "]
  thenWords := ["Nato ", "Potem ", "Takrat "]
  andWords := ["In ", "Ter "]
  butWords := ["Toda ", "Ampak ", "Vendar "]

/-- The keywords for the code sr-Cyrl. -/
def serbian : Dialect where
  code := "sr-Cyrl"
  feature := ["Функционалност", "Могућност", "Особина"]
  background := ["Контекст", "Основа", "Позадина"]
  rule := ["Правило"]
  scenario := ["Пример", "Сценарио", "Пример"]
  outline := ["Структура сценарија", "Скица", "Концепт"]
  examples := ["Примери", "Сценарији"]
  givenWords := ["* ", "За дато ", "За дате ", "За дати "]
  whenWords := ["* ", "Када ", "Кад "]
  thenWords := ["* ", "Онда "]
  andWords := ["* ", "И "]
  butWords := ["* ", "Али "]

/-- The keywords for the code sr-Latn. -/
def serbianLatin : Dialect where
  code := "sr-Latn"
  feature := ["Funkcionalnost", "Mogućnost", "Mogucnost", "Osobina"]
  background := ["Kontekst", "Osnova", "Pozadina"]
  rule := ["Pravilo"]
  scenario := ["Scenario", "Primer"]
  outline := ["Struktura scenarija", "Skica", "Koncept"]
  examples := ["Primeri", "Scenariji"]
  givenWords := ["* ", "Za dato ", "Za date ", "Za dati "]
  whenWords := ["* ", "Kada ", "Kad "]
  thenWords := ["* ", "Onda "]
  andWords := ["* ", "I "]
  butWords := ["* ", "Ali "]

/-- The keywords for the code sv. -/
def swedish : Dialect where
  code := "sv"
  feature := ["Egenskap"]
  background := ["Bakgrund"]
  rule := ["Regel"]
  scenario := ["Scenario"]
  outline := ["Abstrakt Scenario", "Scenariomall"]
  examples := ["Exempel"]
  givenWords := ["* ", "Givet "]
  whenWords := ["* ", "När "]
  thenWords := ["* ", "Så "]
  andWords := ["* ", "Och "]
  butWords := ["* ", "Men "]

/-- The keywords for the code ta. -/
def tamil : Dialect where
  code := "ta"
  feature := ["அம்சம்", "வணிக தேவை", "திறன்"]
  background := ["பின்னணி"]
  rule := ["Rule"]
  scenario := ["உதாரணமாக", "காட்சி"]
  outline := ["காட்சி சுருக்கம்", "காட்சி வார்ப்புரு"]
  examples := ["எடுத்துக்காட்டுகள்", "காட்சிகள்", "நிலைமைகளில்"]
  givenWords := ["* ", "கொடுக்கப்பட்ட "]
  whenWords := ["* ", "எப்போது "]
  thenWords := ["* ", "அப்பொழுது "]
  andWords := ["* ", "மேலும்  ", "மற்றும் "]
  butWords := ["* ", "ஆனால்  "]

/-- The keywords for the code th. -/
def thai : Dialect where
  code := "th"
  feature := ["โครงหลัก", "ความต้องการทางธุรกิจ", "ความสามารถ"]
  background := ["แนวคิด"]
  rule := ["Rule"]
  scenario := ["เหตุการณ์"]
  outline := ["สรุปเหตุการณ์", "โครงสร้างของเหตุการณ์"]
  examples := ["ชุดของตัวอย่าง", "ชุดของเหตุการณ์"]
  givenWords := ["* ", "กำหนดให้ "]
  whenWords := ["* ", "เมื่อ "]
  thenWords := ["* ", "ดังนั้น "]
  andWords := ["* ", "และ "]
  butWords := ["* ", "แต่ "]

/-- The keywords for the code te. -/
def telugu : Dialect where
  code := "te"
  feature := ["గుణము"]
  background := ["నేపథ్యం"]
  rule := ["Rule"]
  scenario := ["ఉదాహరణ", "సన్నివేశం"]
  outline := ["కథనం"]
  examples := ["ఉదాహరణలు"]
  givenWords := ["* ", "చెప్పబడినది "]
  whenWords := ["* ", "ఈ పరిస్థితిలో "]
  thenWords := ["* ", "అప్పుడు "]
  andWords := ["* ", "మరియు "]
  butWords := ["* ", "కాని "]

/-- The keywords for the code tlh. -/
def klingon : Dialect where
  code := "tlh"
  feature := ["Qap", "Qu'meH 'ut", "perbogh", "poQbogh malja'", "laH"]
  background := ["mo'"]
  rule := ["Rule"]
  scenario := ["lut"]
  outline := ["lut chovnatlh"]
  examples := ["ghantoH", "lutmey"]
  givenWords := ["* ", "ghu' noblu' ", "DaH ghu' bejlu' "]
  whenWords := ["* ", "qaSDI' "]
  thenWords := ["* ", "vaj "]
  andWords := ["* ", "'ej ", "latlh "]
  butWords := ["* ", "'ach ", "'a "]

/-- The keywords for the code tr. -/
def turkish : Dialect where
  code := "tr"
  feature := ["Özellik"]
  background := ["Geçmiş"]
  rule := ["Kural"]
  scenario := ["Örnek", "Senaryo"]
  outline := ["Senaryo taslağı"]
  examples := ["Örnekler"]
  givenWords := ["* ", "Diyelim ki "]
  whenWords := ["* ", "Eğer ki "]
  thenWords := ["* ", "O zaman "]
  andWords := ["* ", "Ve "]
  butWords := ["* ", "Fakat ", "Ama "]

/-- The keywords for the code tt. -/
def tatar : Dialect where
  code := "tt"
  feature := ["Мөмкинлек", "Үзенчәлеклелек"]
  background := ["Кереш"]
  rule := ["Rule"]
  scenario := ["Сценарий"]
  outline := ["Сценарийның төзелеше"]
  examples := ["Үрнәкләр", "Мисаллар"]
  givenWords := ["* ", "Әйтик "]
  whenWords := ["* ", "Әгәр "]
  thenWords := ["* ", "Нәтиҗәдә "]
  andWords := ["* ", "Һәм ", "Вә "]
  butWords := ["* ", "Ләкин ", "Әмма "]

/-- The keywords for the code uk. -/
def ukrainian : Dialect where
  code := "uk"
  feature := ["Функціонал"]
  background := ["Передумова"]
  rule := ["Rule"]
  scenario := ["Приклад", "Сценарій"]
  outline := ["Структура сценарію"]
  examples := ["Приклади"]
  givenWords := ["* ", "Припустимо ", "Припустимо, що ", "Нехай ", "Дано "]
  whenWords := ["* ", "Якщо ", "Коли "]
  thenWords := ["* ", "То ", "Тоді "]
  andWords := ["* ", "І ", "А також ", "Та "]
  butWords := ["* ", "Але "]

/-- The keywords for the code ur. -/
def urdu : Dialect where
  code := "ur"
  feature := ["صلاحیت", "کاروبار کی ضرورت", "خصوصیت"]
  background := ["پس منظر"]
  rule := ["Rule"]
  scenario := ["منظرنامہ"]
  outline := ["منظر نامے کا خاکہ"]
  examples := ["مثالیں"]
  givenWords := ["* ", "اگر ", "بالفرض ", "فرض کیا "]
  whenWords := ["* ", "جب "]
  thenWords := ["* ", "پھر ", "تب "]
  andWords := ["* ", "اور "]
  butWords := ["* ", "لیکن "]

/-- The keywords for the code uz. -/
def uzbek : Dialect where
  code := "uz"
  feature := ["Функционал"]
  background := ["Тарих"]
  rule := ["Rule"]
  scenario := ["Сценарий"]
  outline := ["Сценарий структураси"]
  examples := ["Мисоллар"]
  givenWords := ["* ", "Агар "]
  whenWords := ["* ", "Агар "]
  thenWords := ["* ", "Унда "]
  andWords := ["* ", "Ва "]
  butWords := ["* ", "Лекин ", "Бирок ", "Аммо "]

/-- The keywords for the code vi. -/
def vietnamese : Dialect where
  code := "vi"
  feature := ["Tính năng"]
  background := ["Bối cảnh"]
  rule := ["Rule"]
  scenario := ["Tình huống", "Kịch bản"]
  outline := ["Khung tình huống", "Khung kịch bản"]
  examples := ["Dữ liệu"]
  givenWords := ["* ", "Biết ", "Cho "]
  whenWords := ["* ", "Khi "]
  thenWords := ["* ", "Thì "]
  andWords := ["* ", "Và "]
  butWords := ["* ", "Nhưng "]

/-- The keywords for the code zh-CN. -/
def chineseSimplified : Dialect where
  code := "zh-CN"
  feature := ["功能"]
  background := ["背景"]
  rule := ["Rule"]
  scenario := ["场景", "剧本"]
  outline := ["场景大纲", "剧本大纲"]
  examples := ["例子"]
  givenWords := ["* ", "假如", "假设", "假定"]
  whenWords := ["* ", "当"]
  thenWords := ["* ", "那么"]
  andWords := ["* ", "而且", "并且", "同时"]
  butWords := ["* ", "但是"]

/-- The keywords for the code zh-TW. -/
def chineseTraditional : Dialect where
  code := "zh-TW"
  feature := ["功能"]
  background := ["背景"]
  rule := ["Rule"]
  scenario := ["場景", "劇本"]
  outline := ["場景大綱", "劇本大綱"]
  examples := ["例子"]
  givenWords := ["* ", "假如", "假設", "假定"]
  whenWords := ["* ", "當"]
  thenWords := ["* ", "那麼"]
  andWords := ["* ", "而且", "並且", "同時"]
  butWords := ["* ", "但是"]

/-- The keywords for the code mr. -/
def marathi : Dialect where
  code := "mr"
  feature := ["वैशिष्ट्य", "सुविधा"]
  background := ["पार्श्वभूमी"]
  rule := ["नियम"]
  scenario := ["परिदृश्य"]
  outline := ["परिदृश्य रूपरेखा"]
  examples := ["उदाहरण"]
  givenWords := ["* ", "जर", "दिलेल्या प्रमाणे "]
  whenWords := ["* ", "जेव्हा "]
  thenWords := ["* ", "मग ", "तेव्हा "]
  andWords := ["* ", "आणि ", "तसेच "]
  butWords := ["* ", "पण ", "परंतु "]

/-- The keywords for the code formal. -/
def formal : Dialect where
  code := "formal"
  feature := ["Section"]
  background := ["Context"]
  rule := ["Rule"]
  scenario := ["Proof", "Evidence"]
  outline := ["Demonstration"]
  examples := ["Examples"]
  givenWords := ["Given"]
  whenWords := ["When"]
  thenWords := ["Then"]
  andWords := ["*", "And"]
  butWords := ["But"]

/-- All dialects. -/
def all : List Dialect :=
  [afrikaans, armenian, aragonese, arabic, asturian, azerbaijani, bulgarian,
   malay, bosnian, catalan, czech, welsh, danish, german, greek, emoji,
   english, scouse, australian, lolcat, oldEnglish, pirate, texan,
   esperanto, spanish, estonian, persian, finnish, french, irish, gujarati,
   galician, hebrew, hindi, croatian, creole, hungarian, indonesian,
   icelandic, italian, japanese, javanese, georgian, kannada, korean,
   lithuanian, luxemburgish, latvian, macedonian, macedonianLatin,
   mongolian, nepali, dutch, norwegian, panjabi, polish, portuguese,
   romanian, russian, slovak, slovenian, serbian, serbianLatin, swedish,
   tamil, thai, telugu, klingon, turkish, tatar, ukrainian, urdu, uzbek,
   vietnamese, chineseSimplified, chineseTraditional, marathi, formal]

/-- The dialect with this code. -/
def find? (code : String) : Option Dialect :=
  all.find? fun d => d.code == code

/-- A code that is not in the table. -/
structure Unsupported where
  code : String
deriving DecidableEq, Repr

/-- The message for the user. -/
def Unsupported.message (u : Unsupported) : String :=
  "unsupported language '" ++ u.code ++ "': Requested language '" ++ u.code
    ++ "' is not supported."

/-- The dialect with this code, or the reason why there is none. -/
def ofCode (code : String) : Except Unsupported Dialect :=
  match find? code with
  | some d => .ok d
  | none => .error ⟨code⟩

/-- No code occurs twice. -/
theorem codes_nodup : (all.map code).Nodup := by
  decide

/-- What is found has the code that was asked for. -/
theorem code_of_find? {c : String} {d : Dialect} (h : find? c = some d) :
    d.code = c := by
  simpa using List.find?_some h

end SoloScenario.Dialect
