import SegmentLog.Settings
import SegmentLog.Text

/-!
The words of a command line. Options come before the command, each at most once; a word that
starts with a dash and is longer than that is an option, unless it comes after `--`. A command
takes exactly its operands. Words are judged from left to right, and the first that is wrong,
or asks for the version or for help, decides.
-/

namespace SegmentLog.Shell

inductive Command
  | write (key value : String)
  | read
  | beginTx
  | txWrite (key value : String)
  | commit
  | abort
  | status
  deriving DecidableEq, Repr

/-- The options given, each once. -/
structure Options where
  folder : Option String := none
  sync : Option Bool := none
  segmentSize : Option UInt64 := none
  bufferSize : Option UInt64 := none
  flushMillis : Option UInt64 := none
  truncateTail : Bool := false
  deriving DecidableEq, Repr

structure Invocation where
  options : Options
  command : Command
  deriving DecidableEq, Repr

/-- Why words ask for nothing to be done to a log. -/
inductive Stop
  | version
  | help
  | misuse
  deriving DecidableEq, Repr

inductive Setting
  | folder
  | sync
  | segmentSize
  | bufferSize
  | flushMillis
  deriving DecidableEq, Repr

namespace Setting

def ofName? (name : String) : Option Setting :=
  if name = "dir" then some folder
  else if name = "sync" then some sync
  else if name = "segment-size" then some segmentSize
  else if name = "buffer-size" then some bufferSize
  else if name = "flush-interval-ms" then some flushMillis
  else none

end Setting

def truth? (text : String) : Option Bool :=
  if text = "true" then some true else if text = "false" then some false else none

def folder? (text : String) : Option String := if text = "" then none else some text

/-- Fills a place that is still empty. -/
def fill? {α : Type} (old new : Option α) : Option (Option α) :=
  match old, new with
  | none, some a => some (some a)
  | _, _ => none

namespace Options

/-- Notes the value of a setting; a second value and one that does not fit are wrong. -/
def set? (o : Options) (setting : Setting) (text : String) : Option Options :=
  match setting with
  | .folder => (fill? o.folder (folder? text)).map fun folder => { o with folder }
  | .sync => (fill? o.sync (truth? text)).map fun sync => { o with sync }
  | .segmentSize =>
    (fill? o.segmentSize (Text.word64? text.toList)).map fun segmentSize => { o with segmentSize }
  | .bufferSize =>
    (fill? o.bufferSize (Text.word64? text.toList)).map fun bufferSize => { o with bufferSize }
  | .flushMillis =>
    (fill? o.flushMillis (Text.word64? text.toList)).map fun flushMillis => { o with flushMillis }

/-- The folder as it was given. -/
def folderText (o : Options) : String := o.folder.getD "./data/wal"

def toSettings (o : Options) (folder : String) : Settings where
  folder
  segmentLimit := (o.segmentSize.map (·.toNat)).getD (64 * 1024 * 1024)
  sync := o.sync.getD true
  bufferLimit := (o.bufferSize.map (·.toNat)).getD (64 * 1024)
  flushInterval := (o.flushMillis.map (·.toNat)).getD 1000 * 1000000
  policy := if o.truncateTail then .truncateTail else .strict

end Options

/-- What a word before the command is. -/
inductive Word
  | setting (setting : Setting) (value : Option String)
  | truncateTail
  | command (name : String)
  | stop (reason : Stop)
  deriving DecidableEq, Repr

/-- A word that counts as an option wherever `--` did not come first. -/
def isOption (word : String) : Bool :=
  match word.toList with
  | '-' :: _ :: _ => true
  | _ => false

/-- A name up to an equals sign, and what follows the sign. -/
def splitValue (cs : List Char) : String × Option String :=
  match cs.dropWhile (· ≠ '=') with
  | [] => (String.ofList cs, none)
  | _ :: value => (String.ofList (cs.takeWhile (· ≠ '=')), some (String.ofList value))

def longOption (cs : List Char) : Word :=
  match splitValue cs with
  | (name, value) =>
    match Setting.ofName? name with
    | some setting => .setting setting value
    | none =>
      if value.isSome then .stop .misuse
      else if name = "truncate-tail" then .truncateTail
      else if name = "version" then .stop .version
      else if name = "help" then .stop .help
      else .stop .misuse

/-- A short option; the rest of its word is its value, with or without an equals sign. -/
def shortOption (c : Char) (rest : List Char) : Word :=
  if c = 'd' then
    match rest with
    | [] => .setting .folder none
    | '=' :: value => .setting .folder (some (String.ofList value))
    | value => .setting .folder (some (String.ofList value))
  else if c = 'V' then .stop .version
  else if c = 'h' then .stop .help
  else .stop .misuse

namespace Word

def ofText (word : String) : Word :=
  match word.toList with
  | ['-', '-'] => .stop .misuse
  | '-' :: '-' :: cs => longOption cs
  | '-' :: c :: rest => shortOption c rest
  | _ => .command word

end Word

/-- At most `count` operands of a command. -/
def operands : Nat → List String → Except Stop (List String)
  | _, [] => .ok []
  | count, word :: rest =>
    if word = "--" then
      if rest.length ≤ count then .ok rest else .error .misuse
    else if word = "-h" ∨ word = "--help" then .error .help
    else if isOption word then .error .misuse
    else
      match count with
      | 0 => .error .misuse
      | count + 1 =>
        match operands count rest with
        | .error stop => .error stop
        | .ok others => .ok (word :: others)

def operandCount? (name : String) : Option Nat :=
  if name = "write" ∨ name = "tx-write" then some 2
  else if name = "read" ∨ name = "begin-tx" ∨ name = "commit" ∨ name = "abort" ∨
      name = "status" then some 0
  else none

namespace Command

def of? (name : String) (operands : List String) : Option Command :=
  match operands with
  | [key, value] =>
    if name = "write" then some (.write key value)
    else if name = "tx-write" then some (.txWrite key value)
    else none
  | [] =>
    if name = "read" then some .read
    else if name = "begin-tx" then some .beginTx
    else if name = "commit" then some .commit
    else if name = "abort" then some .abort
    else if name = "status" then some .status
    else none
  | _ => none

/-- The command of a name, with the words that follow it. -/
def parse (name : String) (words : List String) : Except Stop Command :=
  match operandCount? name with
  | none => .error (if name = "help" ∧ words = [] then .help else .misuse)
  | some count =>
    match operands count words with
    | .error stop => .error stop
    | .ok found =>
      match of? name found with
      | none => .error .misuse
      | some command => .ok command

end Command

/-- Reads words after some options. -/
def parseAfter (o : Options) : List String → Except Stop Invocation
  | [] => .error .misuse
  | word :: rest =>
    match Word.ofText word with
    | .stop reason => .error reason
    | .truncateTail =>
      if o.truncateTail then .error .misuse else parseAfter { o with truncateTail := true } rest
    | .command name =>
      match Command.parse name rest with
      | .error stop => .error stop
      | .ok command => .ok ⟨o, command⟩
    | .setting setting (some value) =>
      match o.set? setting value with
      | none => .error .misuse
      | some o => parseAfter o rest
    | .setting setting none =>
      match rest with
      | [] => .error .misuse
      | value :: rest =>
        if isOption value then .error .misuse
        else
          match o.set? setting value with
          | none => .error .misuse
          | some o => parseAfter o rest

def parse (words : List String) : Except Stop Invocation := parseAfter {} words

end SegmentLog.Shell
