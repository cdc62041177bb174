import Pagewright.Calendar.Date
import Pagewright.Locale.Basic

/-!
# Dates as text

A date in the short, medium, long or full style of a locale. A style is a sequence of fields and
fixed texts (`DateField`), filled with the month and weekday names of the language.
-/

namespace Pagewright

/-- The styles of a date. -/
inductive DateStyle where
  | short
  | medium
  | long
  | full
  deriving Repr, DecidableEq

namespace DateStyle

/-- The style with a name. -/
def ofName? (s : String) : Option DateStyle :=
  if s == "short" then some short
  else if s == "medium" then some medium
  else if s == "long" then some long
  else if s == "full" then some full
  else none

end DateStyle

/-- A part of a written date. -/
inductive DateField where
  | year
  | year2
  | month
  | month2
  | monthShort
  | monthName
  | day
  | day2
  | weekdayName
  | fixed (text : String)
  deriving Repr, DecidableEq

namespace Locale

open DateField

/-- Month names in full. -/
def monthNames : Locale → List String
  | en | enUS | enGB | enIN =>
    ["January", "February", "March", "April", "May", "June", "July", "August", "September",
     "October", "November", "December"]
  | de | deDE =>
    ["Januar", "Februar", "März", "April", "Mai", "Juni", "Juli", "August", "September", "Oktober",
     "November", "Dezember"]
  | frFR =>
    ["janvier", "février", "mars", "avril", "mai", "juin", "juillet", "août", "septembre",
     "octobre", "novembre", "décembre"]
  | esES =>
    ["enero", "febrero", "marzo", "abril", "mayo", "junio", "julio", "agosto", "septiembre",
     "octubre", "noviembre", "diciembre"]
  | ptBR =>
    ["janeiro", "fevereiro", "março", "abril", "maio", "junho", "julho", "agosto", "setembro",
     "outubro", "novembro", "dezembro"]
  | svSE =>
    ["januari", "februari", "mars", "april", "maj", "juni", "juli", "augusti", "september",
     "oktober", "november", "december"]
  | jaJP =>
    ["1月", "2月", "3月", "4月", "5月", "6月", "7月", "8月", "9月", "10月", "11月", "12月"]

/-- Month names in short. -/
def monthShortNames : Locale → List String
  | en | enUS =>
    ["Jan", "Feb", "Mar", "Apr", "May", "Jun", "Jul", "Aug", "Sep", "Oct", "Nov", "Dec"]
  | enGB | enIN =>
    ["Jan", "Feb", "Mar", "Apr", "May", "Jun", "Jul", "Aug", "Sept", "Oct", "Nov", "Dec"]
  | de | deDE =>
    ["Jan.", "Feb.", "März", "Apr.", "Mai", "Juni", "Juli", "Aug.", "Sept.", "Okt.", "Nov.", "Dez."]
  | frFR =>
    ["janv.", "févr.", "mars", "avr.", "mai", "juin", "juil.", "août", "sept.", "oct.", "nov.",
     "déc."]
  | esES =>
    ["ene", "feb", "mar", "abr", "may", "jun", "jul", "ago", "sept", "oct", "nov", "dic"]
  | ptBR =>
    ["jan.", "fev.", "mar.", "abr.", "mai.", "jun.", "jul.", "ago.", "set.", "out.", "nov.", "dez."]
  | svSE =>
    ["jan.", "feb.", "mars", "apr.", "maj", "juni", "juli", "aug.", "sep.", "okt.", "nov.", "dec."]
  | jaJP => monthNames jaJP

/-- Names of the days of the week, from Sunday. -/
def weekdayNames : Locale → List String
  | en | enUS | enGB | enIN =>
    ["Sunday", "Monday", "Tuesday", "Wednesday", "Thursday", "Friday", "Saturday"]
  | de | deDE =>
    ["Sonntag", "Montag", "Dienstag", "Mittwoch", "Donnerstag", "Freitag", "Samstag"]
  | frFR => ["dimanche", "lundi", "mardi", "mercredi", "jeudi", "vendredi", "samedi"]
  | esES => ["domingo", "lunes", "martes", "miércoles", "jueves", "viernes", "sábado"]
  | ptBR =>
    ["domingo", "segunda-feira", "terça-feira", "quarta-feira", "quinta-feira", "sexta-feira",
     "sábado"]
  | svSE => ["söndag", "måndag", "tisdag", "onsdag", "torsdag", "fredag", "lördag"]
  | jaJP => ["日曜日", "月曜日", "火曜日", "水曜日", "木曜日", "金曜日", "土曜日"]

/-- The fields of a style in a locale. -/
def dateFields (l : Locale) (style : DateStyle) : List DateField :=
  match l with
  | en | enUS =>
    match style with
    | .short => [month, fixed "/", day, fixed "/", year2]
    | .medium => [monthShort, fixed " ", day, fixed ", ", year]
    | .long => [monthName, fixed " ", day, fixed ", ", year]
    | .full => [weekdayName, fixed ", ", monthName, fixed " ", day, fixed ", ", year]
  | enGB | enIN =>
    match style with
    | .short => [day2, fixed "/", month2, fixed "/", if l = enGB then year else year2]
    | .medium => [day, fixed " ", monthShort, fixed " ", year]
    | .long => [day, fixed " ", monthName, fixed " ", year]
    | .full => [weekdayName, fixed ", ", day, fixed " ", monthName, fixed " ", year]
  | de | deDE =>
    match style with
    | .short => [day2, fixed ".", month2, fixed ".", year2]
    | .medium => [day2, fixed ".", month2, fixed ".", year]
    | .long => [day, fixed ". ", monthName, fixed " ", year]
    | .full => [weekdayName, fixed ", ", day, fixed ". ", monthName, fixed " ", year]
  | frFR =>
    match style with
    | .short => [day2, fixed "/", month2, fixed "/", year]
    | .medium => [day, fixed " ", monthShort, fixed " ", year]
    | .long => [day, fixed " ", monthName, fixed " ", year]
    | .full => [weekdayName, fixed " ", day, fixed " ", monthName, fixed " ", year]
  | esES =>
    match style with
    | .short => [day, fixed "/", month, fixed "/", year2]
    | .medium => [day, fixed " ", monthShort, fixed " ", year]
    | .long => [day, fixed " de ", monthName, fixed " de ", year]
    | .full => [weekdayName, fixed ", ", day, fixed " de ", monthName, fixed " de ", year]
  | jaJP =>
    match style with
    | .short => [year, fixed "/", month2, fixed "/", day2]
    | .medium => [year, fixed "/", month2, fixed "/", day2]
    | .long => [year, fixed "年", month, fixed "月", day, fixed "日"]
    | .full => [year, fixed "年", month, fixed "月", day, fixed "日", weekdayName]
  | ptBR =>
    match style with
    | .short => [day2, fixed "/", month2, fixed "/", year]
    | .medium => [day, fixed " de ", monthShort, fixed " de ", year]
    | .long => [day, fixed " de ", monthName, fixed " de ", year]
    | .full => [weekdayName, fixed ", ", day, fixed " de ", monthName, fixed " de ", year]
  | svSE =>
    match style with
    | .short => [year, fixed "-", month2, fixed "-", day2]
    | .medium => [day, fixed " ", monthShort, fixed " ", year]
    | .long => [day, fixed " ", monthName, fixed " ", year]
    | .full => [weekdayName, fixed " ", day, fixed " ", monthName, fixed " ", year]

/-- A number in two digits. -/
def twoDigits (n : Nat) : String := String.ofList (Decimal.padded 2 n)

/-- A field of a date. -/
def fieldText (l : Locale) (d : Date) : DateField → String
  | year => toString d.year
  | year2 => twoDigits (d.year % 100)
  | month => toString d.month
  | month2 => twoDigits d.month
  | monthShort => l.monthShortNames.getD (d.month - 1) ""
  | monthName => l.monthNames.getD (d.month - 1) ""
  | day => toString d.day
  | day2 => twoDigits d.day
  | weekdayName => l.weekdayNames.getD d.weekday ""
  | fixed text => text

/-- A date in a style of the locale. -/
def dateText (l : Locale) (d : Date) (style : DateStyle) : String :=
  String.join ((l.dateFields style).map (l.fieldText d))

end Locale

end Pagewright
