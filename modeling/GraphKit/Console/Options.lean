import GraphKit.Console.Interval

/-!
# Options of the command that prints a tensor

Options may be shortened as long as they are unique, short ones may be joined, and a value may be
joined to its option. After `--` nothing is an option.
-/

namespace GraphKit.Console

structure PrintOptions where
  tensorName : String
  number : Int := -1
  ranges : String := ""
  all : Bool := false
  summary : Bool := false
  writePath : String := ""
deriving DecidableEq

namespace PrintOptions

inductive Key where
  | help
  | number
  | ranges
  | all
  | summary
  | writePath
deriving DecidableEq

def Key.takesValue : Key → Bool
  | .number | .ranges | .writePath => true
  | _ => false

def spellings : List (String × Key) := [
  ("-h", .help), ("--help", .help), ("-n", .number), ("--number", .number), ("-r", .ranges),
  ("--ranges", .ranges), ("-a", .all), ("--all", .all), ("-s", .summary),
  ("--numeric_summary", .summary), ("-w", .writePath), ("--write_path", .writePath)]

inductive Word where
  | plain (s : String)
  /-- The mark after which nothing is an option. -/
  | dashes
  /-- An option in its full spelling, with a value joined to it. -/
  | option (spelling : String) (key : Key) (value : Option String)
  /-- Something that looks like an option and is none. -/
  | unknown
deriving DecidableEq

def splitEquals (s : String) : Option (String × String) :=
  let before := s.toList.takeWhile (· != '=')
  if before.length = s.length then none
  else some (String.ofList before, dropFirst s (before.length + 1))

/-- The options that a shortened or joined one may stand for. -/
def candidates (s : String) : List (String × Key × Option String) :=
  if startsWith s "--" then
    let (start, value) := match splitEquals s with
      | some (a, b) => (a, some b)
      | none => (s, none)
    (spellings.filter fun e => startsWith e.1 start).map fun (o, k) => (o, k, value)
  else spellings.filterMap fun (o, k) =>
    if o = String.ofList (s.toList.take 2) then some (o, k, some (dropFirst s 2))
    else if startsWith o s then some (o, k, none)
    else none

/-- Is a word a negative number? A line end may follow it. -/
def isNegativeNumber (s : String) : Bool :=
  let digits := fun (cs : List Char) => !cs.isEmpty && cs.all Text.isDecimal
  match s.toList with
  | '-' :: cs =>
    let cs := if cs.getLast? = some '\n' then cs.dropLast else cs
    let whole := cs.takeWhile Text.isDecimal
    match cs.drop whole.length with
    | [] => digits whole
    | '.' :: fraction => digits fraction
    | _ => false
  | _ => false

def classify (s : String) : Except Fault Word :=
  if s.isEmpty || !startsWith s "-" || s = "-" then
    .ok (.plain s)
  else match spellings.lookup s with
    | some k => .ok (.option s k none)
    | none =>
      match (splitEquals s).bind fun (o, v) => (spellings.lookup o).map fun k => (o, k, v) with
      | some (o, k, v) => .ok (.option o k (some v))
      | none =>
        match candidates s with
        | [(o, k, v)] => .ok (.option o k v)
        | _ :: _ :: _ => .error .usage
        | [] =>
          if isNegativeNumber s || s.toList.contains ' ' then .ok (.plain s) else .ok .unknown

def classifyAll : List String → Except Fault (List Word)
  | [] => .ok []
  | s :: rest =>
    if s = "--" then .ok (.dashes :: rest.map .plain)
    else do return (← classify s) :: (← classifyAll rest)

def setFlag (o : PrintOptions) : Key → Except Fault PrintOptions
  | .all => .ok { o with all := true }
  | .summary => .ok { o with summary := true }
  | _ => .error .usage

def setValue (o : PrintOptions) (v : String) : Key → Except Fault PrintOptions
  | .number => (Number.readInt? v).elim (.error .usage) fun i => .ok { o with number := i }
  | .ranges => .ok { o with ranges := v }
  | .writePath => .ok { o with writePath := v }
  | _ => .error .usage

/-- Sets options joined to a short one, of which `tail` are the letters left. Gives the option that
still waits for a value. -/
def setJoined : List Char → String → Key → PrintOptions → Except Fault (PrintOptions × Option Key)
  | tail, spelling, key, o =>
    if key.takesValue then do return (← setValue o (String.ofList tail) key, none)
    else if startsWith spelling "--" then .error .usage
    else match tail with
      | [] => .error .usage
      | c :: rest => do
        let o ← setFlag o key
        let next := String.ofList ['-', c]
        match spellings.lookup next with
        | none => throw .usage
        | some k =>
          if rest.isEmpty then
            if k.takesValue then return (o, some k) else return (← setFlag o k, none)
          else setJoined rest next k o

/-- The plain word that comes next with the marks around it; a mark before it is dropped. -/
def takePlain : List Word → Option (String × List Word)
  | .plain s :: rest => some (s, rest.dropWhile (· = .dashes))
  | .dashes :: .plain s :: rest => some (s, rest)
  | _ => none

def setAll : Nat → Option String → PrintOptions → List Word → Except Fault PrintOptions
  | 0, _, _, _ => .error .usage
  | _, some name, o, [] => .ok { o with tensorName := name }
  | _, none, _, [] => .error .usage
  | fuel + 1, name, o, words =>
    match words with
    | .option spelling key value :: rest => do
      let (o, waiting) ← match value with
        | some v => setJoined v.toList spelling key o
        | none => if key.takesValue then pure (o, some key) else do pure (← setFlag o key, none)
      match waiting, rest with
      | some k, .plain v :: rest => setAll fuel name (← setValue o v k) rest
      | some _, _ => throw .usage
      | none, rest => setAll fuel name o rest
    | .unknown :: _ => .error .usage
    | words =>
      match name, takePlain words with
      | none, some (s, rest) => setAll fuel (some s) o rest
      | _, _ => .error .usage

def parse (args : List String) : Except Fault PrintOptions := do
  let words ← classifyAll args
  setAll (words.length + 1) none { tensorName := "" } words

end PrintOptions

end GraphKit.Console
