import TypedFlow.Schedule.Plan

/-!
# Options

The arguments of the command: two files, settings with a value, and a flag. A value stands in the
same argument as its setting or in the next one, where it must not look like a setting itself. Only
aliases may be given more than once.
-/
namespace TypedFlow.CommandLine

inductive Setting
  | definitions
  | config
  | alias
  | mode
deriving DecidableEq

namespace Setting

def all : List Setting := [.definitions, .config, .alias, .mode]

def longName : Setting → String
  | .definitions => "definitions"
  | .config => "config"
  | .alias => "alias"
  | .mode => "mode"

def shortName : Setting → Char
  | .definitions => 'd'
  | .config => 'c'
  | .alias => 'a'
  | .mode => 'm'

end Setting

inductive Item
  | file (path : String)
  | setting (setting : Setting) (value : String)
  | pretty

structure Options where
  kinds : String
  pipeline : String
  definitions : Option String
  config : Option String
  aliases : List String
  mode : ScheduleMode
  pretty : Bool

/-- A dash with something after it. -/
def looksLikeSetting (arg : String) : Bool :=
  match arg.toList with
  | '-' :: _ :: _ => true
  | _ => false

/-- What stands before the first equals sign, and what stands after it if there is one. -/
def splitEquals (cs : List Char) : String × Option String :=
  match cs.span (· != '=') with
  | (name, '=' :: value) => (String.ofList name, some (String.ofList value))
  | (name, _) => (String.ofList name, none)

/-- The items of one argument, and a setting whose value is still to come. -/
abbrev Found := List Item × Option Setting

/-- An argument after two dashes. -/
def readLong (cs : List Char) : Option Found :=
  let (name, value) := splitEquals cs
  match Setting.all.find? (·.longName == name), value with
  | some s, some value => some ([.setting s value], none)
  | some s, none => some ([], some s)
  | none, none => if name == "pretty" then some ([.pretty], none) else none
  | none, some _ => none

/-- An argument after one dash: flags, the last of which may be a setting with its value. -/
def readShort : List Char → Option Found
  | [] => some ([], none)
  | c :: cs =>
    if c = 'p' then (readShort cs).map fun (items, open?) => (.pretty :: items, open?)
    else
      (Setting.all.find? (·.shortName == c)).map fun s =>
        match cs with
        | [] => ([], some s)
        | '=' :: value => ([.setting s (String.ofList value)], none)
        | value => ([.setting s (String.ofList value)], none)

def readArgument (arg : String) : Option Found :=
  match arg.toList with
  | '-' :: '-' :: cs => readLong cs
  | '-' :: c :: cs => readShort (c :: cs)
  | _ => some ([.file arg], none)

/-- The items of all arguments, the first of which may be a value that is awaited. -/
def readArguments : Option Setting → List String → Option (List Item)
  | none, [] => some []
  | some _, [] => none
  | some s, arg :: args =>
    if looksLikeSetting arg then none
    else (readArguments none args).map (.setting s arg :: ·)
  | none, arg :: args =>
    if arg = "--" then some (args.map .file)
    else do
      let (items, awaited) ← readArgument arg
      return items ++ (← readArguments awaited args)

def files (items : List Item) : List String :=
  items.filterMap fun
    | .file path => some path
    | _ => none

def valuesOf (s : Setting) (items : List Item) : List String :=
  items.filterMap fun
    | .setting other value => if other = s then some value else none
    | _ => none

/-- The value of a setting that is given once at most. -/
def atMostOne? : List String → Option (Option String)
  | [] => some none
  | [value] => some (some value)
  | _ => none

def isPretty : Item → Bool
  | .pretty => true
  | _ => false

/-- The options that some arguments express, if they do. -/
def Options.ofArguments? (args : List String) : Option Options := do
  let items ← readArguments none args
  let definitions ← atMostOne? (valuesOf .definitions items)
  let config ← atMostOne? (valuesOf .config items)
  let mode ← atMostOne? (valuesOf .mode items)
  let mode ← mode.elim (some .global) ScheduleMode.ofName?
  match files items, items.filter isPretty with
  | [kinds, pipeline], [] | [kinds, pipeline], [_] => return {
      kinds, pipeline, definitions, config, mode
      aliases := valuesOf .alias items
      pretty := items.any isPretty }
  | _, _ => none

end TypedFlow.CommandLine
