/-!
Log records.
-/

namespace NovelScript

/-- Records of every level are kept; how many of them are shown is for the command line. -/
inductive Level where
  | debug
  | info
  | warn
  deriving DecidableEq, Repr

def Level.title : Level → String
  | debug => "DEBUG"
  | info => "INFO"
  | warn => "WARN"

inductive Topic where
  | container
  | bytecode
  | scan
  | repack
  | script
  | run
  deriving DecidableEq, Repr

def Topic.target : Topic → String
  | container => "malie_core::container"
  | bytecode => "malie_core::bytecode"
  | scan => "malie_core::scan"
  | repack => "malie_core::repack"
  | script => "malie_core::script"
  | run => "malie_core"

structure Record where
  level : Level
  topic : Topic
  text : String
  deriving DecidableEq, Repr

def Record.line (r : Record) : String :=
  "[" ++ r.level.title ++ " " ++ r.topic.target ++ "] " ++ r.text

end NovelScript
