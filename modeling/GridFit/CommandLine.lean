import GridFit.Numeral

/-!
# The command line

Options start with one or two dashes and take a value, either after an equals sign or as the next
argument. The first argument that is no option ends them, and so does a pair of dashes.
-/

namespace GridFit

/-- What the command line asks for. -/
structure Settings where
  font : String := ""
  size : Float := 12
  dpi : Float := 72
  hinting : String := "full"
  text : String := "Hinting"

/-- Why there is nothing to do. -/
inductive Refusal where
  | help
  /-- The arguments are wrong. -/
  | misuse
deriving DecidableEq, Repr

namespace Settings

def set (s : Settings) (name value : String) : Except Refusal Settings :=
  match name with
  | "font" => .ok { s with font := value }
  | "size" => number fun f => { s with size := f }
  | "dpi" => number fun f => { s with dpi := f }
  | "hinting" => .ok { s with hinting := value }
  | "text" => .ok { s with text := value }
  | _ => .error .misuse
where
  number (f : Float → Settings) : Except Refusal Settings :=
    match Numeral.toFloat? value with
    | some v => .ok (f v)
    | none => .error .misuse

def isOption (name : String) : Bool := name ∈ ["font", "size", "dpi", "hinting", "text"]

/-- The name of an option and its value, if an equals sign gives one. -/
def split (body : List Char) : String × Option String :=
  match body.dropWhile (· ≠ '=') with
  | [] => (String.ofList body, none)
  | _ :: value => (String.ofList (body.takeWhile (· ≠ '=')), some (String.ofList value))

inductive Argument where
  | stop
  /-- A dash that is followed by neither a name nor nothing. -/
  | malformed
  | named (name : String) (value? : Option String)
deriving DecidableEq, Repr

/-- The name and value of an option, after its dashes. -/
def Argument.ofBody (body : List Char) : Argument :=
  match body with
  | [] => .malformed
  | '-' :: _ => .malformed
  | '=' :: _ => .malformed
  | _ =>
    let (name, value?) := split body
    .named name value?

def Argument.ofText (s : String) : Argument :=
  match s.toList with
  | ['-'] => .stop
  | ['-', '-'] => .stop
  | '-' :: '-' :: body => .ofBody body
  | '-' :: body => .ofBody body
  | _ => .stop

/-- Reads the arguments. An option that is not known is refused before its value is read. -/
def read (s : Settings) : List String → Except Refusal Settings
  | [] => .ok s
  | arg :: rest =>
    match Argument.ofText arg with
    | .stop => .ok s
    | .malformed => .error .misuse
    | .named name value? =>
      if isOption name then
        match value? with
        | some value =>
          match s.set name value with
          | .ok s => read s rest
          | .error e => .error e
        | none =>
          match rest with
          | [] => .error .misuse
          | value :: rest =>
            match s.set name value with
            | .ok s => read s rest
            | .error e => .error e
      else if name = "help" ∨ name = "h" then .error .help
      else .error .misuse

def ofArgs (args : List String) : Except Refusal Settings := read {} args

end Settings

def Refusal.exitCode : Refusal → UInt32
  | .help => 0
  | .misuse => 2

end GridFit
