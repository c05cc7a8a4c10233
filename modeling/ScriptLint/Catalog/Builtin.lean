import ScriptLint.Catalog.Source
import ScriptLint.Diagnostic

/-! The catalogs that come with the linter. -/

namespace ScriptLint.Catalog

/-- The locales of the linter's own messages. -/
def builtinLocales : List String :=
  ["de", "en_US@snarky", "fr_FR", "pt_BR", "sv_SE"]

/-- The linter's own messages, in the order of their numbers. -/
def builtinSource : Source where
  locales := builtinLocales
  rows := [
    { default := "unclosed block comment"
      translations := [
        some "nicht geschlossener Blockkommentar",
        some "/* unclosed block comment",
        some "commentaire de bloc non fermé",
        some "comentário de bloco não fechado",
        some "oavslutad blockkommentar"] },
    { default := "unopened block comment"
      translations := [
        some "nicht geöffneter Blockkommentar",
        some "unopened block comment */",
        some "commentaire de bloc non ouvert",
        none,
        some "oöppnad blockkommentar"] },
    { default := "unclosed string literal"
      translations := [
        some "nicht geschlossenes Zeichenkettenliteral",
        some "\"unclosed string literal",
        some "chaîne de caractères non fermée",
        some "string literal não fechada",
        some "oavslutad strängliteral"] },
    { default := "unclosed template"
      translations := [
        some "nicht geschlossenes Template",
        some "`unclosed template",
        some "modèle non fermé",
        none,
        none] },
    { default := "unexpected '\x7b0\x7d'"
      translations := [
        some "unerwartetes '\x7b0\x7d'",
        some "'\x7b0\x7d'? what is that doing here",
        some "'\x7b0\x7d' inattendu",
        some "'\x7b0\x7d' inesperado",
        some "oväntat '\x7b0\x7d'"] }]

/-- The catalog of the linter's own messages, which can be built (`Catalog.rows_builtin`). -/
@[irreducible]
def builtin : Catalog :=
  builtinSource.catalog

/-- The names of the linter's own messages. -/
def builtinMessageIds : List (String × Nat) :=
  [("UNCLOSED_BLOCK_COMMENT", Kind.unclosedBlockComment.messageId),
   ("UNOPENED_BLOCK_COMMENT", Kind.unopenedBlockComment.messageId),
   ("UNCLOSED_STRING_LITERAL", Kind.unclosedString.messageId),
   ("UNCLOSED_TEMPLATE", Kind.unclosedTemplate.messageId),
   ("UNEXPECTED_CHARACTER", Kind.strayAt.messageId)]

/-- A locale that only the sample catalog has. -/
def sampleCustomLocale : String := "xx_YY@custom"

/-- A small catalog to try locales on. -/
def sampleSource : Source where
  locales := ["de", sampleCustomLocale]
  rows := [
    { default := "hello", translations := [some "hallo", some "hullo, custom"] },
    { default := "goodbye", translations := [none, some "cheerio, custom"] }]

end ScriptLint.Catalog
