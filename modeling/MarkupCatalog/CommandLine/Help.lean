import MarkupCatalog.CommandLine.Basic

/-!
# Help

What the program says about its command line.
-/

namespace MarkupCatalog.CommandLine

def usage : String := "Usage: ng-html-data [OPTIONS]"

def help : String :=
  "\n".intercalate
    ["Generates VS Code custom HTML data from Angular components and directives",
      "",
      usage,
      "",
      "Options:",
      "  -f, --files <GLOB>",
      "          Glob selecting the source files (default: **/*.ts)",
      "  -d, --destination <PATH>",
      "          Output file (default: custom.html-data.json)",
      "      --exclude <GLOB>",
      "          Glob to leave out; repeat for several. Replaces the configured list",
      "      --tag-formatter <FORMATTER>",
      "          Formatter for component and directive descriptions " ++
        "[possible values: simple, summary]",
      "      --attribute-formatter <FORMATTER>",
      "          Formatter for input and output descriptions [possible values: simple, summary]",
      "      --config <PATH>",
      "          Config file to use instead of .ng-html-data.json [env: NG_HTML_DATA_CONFIG]",
      "      --stdout",
      "          Print the document instead of writing the destination file",
      "  -v, --verbose",
      "          Log each file and declaration",
      "  -q, --quiet",
      "          Only log errors",
      "  -h, --help",
      "          Print help",
      "  -V, --version",
      "          Print version"]

/-- What a refused command line is answered with. -/
def Refusal.message : Refusal → String
  | unknownArgument => "error: unexpected argument found"
  | invalidValue => "error: a value is missing or not valid"
  | tooManyValues => "error: a value was given to an option that takes none"
  | argumentConflict => "error: arguments cannot be used together"
  | help => CommandLine.help
  | version => ""

end MarkupCatalog.CommandLine
