import Pagewright.Value
import Pagewright.Failure
import Pagewright.Text.Case
import Pagewright.Text.Scan

/-!
# Locales

The locales that amounts and dates are written in. A tag such as `de-DE` or `de_DE` names one,
whatever the case of its letters; `Locale.ofTag` reads it. What a language writes differently is kept
in the modules on amounts and date texts.
-/

namespace Pagewright

/-- The known locales. -/
inductive Locale where
  | en
  | enUS
  | enGB
  | enIN
  | de
  | deDE
  | frFR
  | esES
  | jaJP
  | ptBR
  | svSE
  deriving Repr, DecidableEq

namespace Locale

/-- All locales. -/
def all : List Locale := [en, enUS, enGB, enIN, de, deDE, frFR, esES, jaJP, ptBR, svSE]

/-- The canonical tag of a locale. -/
def tag : Locale → String
  | en => "en"
  | enUS => "en_US"
  | enGB => "en_GB"
  | enIN => "en_IN"
  | de => "de"
  | deDE => "de_DE"
  | frFR => "fr_FR"
  | esES => "es_ES"
  | jaJP => "ja_JP"
  | ptBR => "pt_BR"
  | svSE => "sv_SE"

/-- The tag that stands for no tag. -/
def defaultTag : String := "en-US"

/-- Lower case of an ASCII text. -/
def folded (s : String) : List Char := s.toList.map Char.toLower

/-- The locale that a tag with underscores names; a script that goes without saying may be named. -/
def ofTag? (s : String) : Option Locale :=
  if folded s == folded "en_Latn_US" then some enUS
  else all.find? fun l => folded l.tag == folded s

/-- The locale that a tag names, hyphens and underscores being the same. A missing tag is the
default one. -/
def ofTag (v : Value) : Outcome Locale :=
  match v.orElse (.text defaultTag) with
  | .text s =>
    let s := String.ofList (Text.replace ['-'] ['_'] s.toList)
    match ofTag? s with
    | some l => .ok l
    | none => .error (.unknownLocale s)
  | v => undefinedOn (.notATag v)

/-- The locale of table cells. -/
def forCells : Locale := enUS

end Locale

end Pagewright
