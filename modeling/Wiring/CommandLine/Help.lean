import Wiring.CommandLine.Options

/-!
The description of the command line, brief and in full. The brief one has one line for
each option and wraps at a hundred columns.
-/

namespace Wiring.CommandLine.Help

def dialectLine : Dialect → String
  | .legacy => "          - legacy:       Legacy component markup"
  | .objects => "          - objects:      Current object markup (1.0 and 1.1 schemas)"
  | .springBeans => "          - spring-beans: Bean markup"
  | .yaml => "          - yaml:         Structured text"

/-- What the command does and how it is called. -/
def opening : List String :=
  ["Read and print container object definitions",
    "",
    "Usage: objdef [OPTIONS] [FILES]...",
    ""]

def brief : List String :=
  opening ++
  ["Arguments:",
    "  [FILES]...  Definition files, read after the manifest's sources",
    "",
    "Options:",
    "  -m, --manifest <MANIFEST>  TOML manifest listing sources in order",
    "  -d, --dialect <DIALECT>    Dialect of FILES (detected per file when omitted) [possible values:",
    "                             legacy, objects, spring-beans, yaml]",
    "  -v, --verbose              Debug logging to stderr (RUST_LOG overrides)",
    "  -h, --help                 Print help (see more with '--help')"]

def full : List String :=
  opening ++
  ["Arguments:",
    "  [FILES]...",
    "          Definition files, read after the manifest's sources",
    "",
    "Options:",
    "  -m, --manifest <MANIFEST>",
    "          TOML manifest listing sources in order",
    "",
    "  -d, --dialect <DIALECT>",
    "          Dialect of FILES (detected per file when omitted)",
    "",
    "          Possible values:"] ++
  Dialect.all.map dialectLine ++
  ["",
    "  -v, --verbose",
    "          Debug logging to stderr (RUST_LOG overrides)",
    "",
    "  -h, --help",
    "          Print help (see a summary with '-h')"]

end Wiring.CommandLine.Help
