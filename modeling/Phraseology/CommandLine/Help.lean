import Phraseology.CommandLine.Flag

/-!
# Help

A manual as text.  The short form gives each option one description, in a column beside
the options if all descriptions fit there and else below each option.  The long form
gives each option a block of paragraphs; there is one only where a choice of an option
has a description of its own.
-/

namespace Phraseology.CommandLine

/-- The width of a page. -/
def pageWidth : Nat := 100

/-- A text with spaces behind it up to a width. -/
def padTo (width : Nat) (text : String) : String :=
  text ++ String.ofList (List.replicate (width - text.length) ' ')

/-- The spaces in front of a description below its option. -/
def descriptionMargin : String := "          "

/-- An option as it is given, in capitals and low lines for its value. -/
def Flag.usage (flag : Flag) : String :=
  match flag.kind with
  | .value _ =>
    let placeholder := flag.name.map fun c => if c == '-' then '_' else c.toUpper
    "--" ++ flag.name ++ " <" ++ placeholder ++ ">"
  | _ => "--" ++ flag.name

/-- An option with its letter, or with room for one. -/
def Flag.label (flag : Flag) : String :=
  (match flag.letter with
    | some c => String.ofList ['-', c, ',', ' ']
    | none => "    ") ++ flag.usage

/-- Whether a choice of an option has a description. -/
def Flag.hasDescribedChoice (flag : Flag) : Bool :=
  flag.choices.any fun choice => choice.2.isSome

/-- Whether there is a long form. -/
def Manual.hasLongForm (manual : Manual) : Bool :=
  manual.flags.any Flag.hasDescribedChoice

/-- The description of an option; that of help points to the other form. -/
def Flag.aboutIn (flag : Flag) (hasLongForm long : Bool) : String :=
  match flag.kind, hasLongForm, long with
  | .help, true, true => flag.about ++ " (see a summary with '-h')"
  | .help, true, false => flag.about ++ " (see more with '--help')"
  | _, _, _ => flag.about

/-- Remarks in square brackets: the environment variable with its value, the value that
holds without the option and, if asked for, the choices. -/
def Flag.remarks (environment : String → Option String) (withChoices : Bool) (flag : Flag) :
    String :=
  let variableRemark := flag.variableName.map fun name =>
    "[env: " ++ name ++ "=" ++ (environment name).getD "" ++ "]"
  let presetRemark := flag.preset.map fun value => "[default: " ++ value ++ "]"
  let choiceRemark :=
    if withChoices && !flag.choices.isEmpty then
      some ("[possible values: " ++ ", ".intercalate (flag.choices.map (·.1)) ++ "]")
    else none
  " ".intercalate ([variableRemark, presetRemark, choiceRemark].filterMap id)

/-- The one description of an option in the short form. -/
def Flag.summary (environment : String → Option String) (hasLongForm : Bool) (flag : Flag) :
    String :=
  " ".intercalate
    ([flag.aboutIn hasLongForm false, flag.remarks environment true].filter (· != ""))

/-- The choices of an option one by one. -/
def Flag.choiceParagraph (flag : Flag) : String :=
  let choices := flag.choices.map fun (name, about) =>
    "- " ++ name ++ (match about with
      | some text => ": " ++ text
      | none => "")
  ("\n" ++ descriptionMargin).intercalate ("Possible values:" :: choices)

/-- The paragraphs on an option in the long form. -/
def Flag.paragraphs (environment : String → Option String) (flag : Flag) : List String :=
  let described := flag.hasDescribedChoice
  [flag.aboutIn true true, if described then flag.choiceParagraph else "",
    flag.remarks environment (!described)].filter (· != "")

/-- The width of the column of options. -/
def Manual.columnWidth (manual : Manual) : Nat :=
  (manual.flags.map fun flag => flag.label.length).foldl max 2

/-- Whether a description is too long to stand beside a wide column of options. -/
def Manual.overflows (environment : String → Option String) (manual : Manual) : Bool :=
  let taken := manual.columnWidth + 12
  2 * pageWidth < 5 * taken && taken ≤ pageWidth &&
    manual.flags.any fun flag =>
      pageWidth - taken < (flag.aboutIn manual.hasLongForm false).length +
        (flag.remarks environment true).length

/-- The options with their descriptions. -/
def Manual.flagLines (environment : String → Option String) (long : Bool) (manual : Manual) :
    List String :=
  if long && manual.hasLongForm then
    [("\n\n").intercalate (manual.flags.map fun flag =>
      "  " ++ flag.label ++ "\n" ++ descriptionMargin ++
        ("\n" ++ descriptionMargin ++ "\n" ++ descriptionMargin).intercalate
          (flag.paragraphs environment))]
  else
    manual.flags.map fun flag =>
      let summary := flag.summary environment manual.hasLongForm
      if manual.overflows environment then
        "  " ++ flag.label ++ "\n" ++ descriptionMargin ++ summary
      else "  " ++ padTo manual.columnWidth flag.label ++ "  " ++ summary

/-- Names with descriptions in a column beside them. -/
def describedLines (entries : List (String × String)) : List String :=
  let width := (entries.map fun entry => entry.1.length).foldl max 0
  entries.map fun (name, about) => "  " ++ padTo width name ++ "  " ++ about

/-- A part of a page under a heading; nothing without lines. -/
def part? (heading : String) (lines : List String) : Option String :=
  if lines.isEmpty then none else some (heading ++ "\n" ++ "\n".intercalate lines)

/-- How a place of a call is used. -/
def Manual.usage (manual : Manual) : String :=
  " ".intercalate ([manual.call] ++ (if manual.flags.isEmpty then [] else ["[OPTIONS]"]) ++
    (if manual.subcommands.isEmpty then [] else ["<COMMAND>"]) ++ manual.operands.map (·.1))

/-- The page of a manual. -/
def Manual.page (environment : String → Option String) (long : Bool) (manual : Manual) :
    String :=
  "\n\n".intercalate ([manual.about, "Usage: " ++ manual.usage] ++
    [part? "Commands:" (describedLines manual.subcommands),
     part? "Arguments:" (describedLines manual.operands),
     part? "Options:" (manual.flagLines environment long)].filterMap id) ++ "\n"

end Phraseology.CommandLine
