import GraphKit.Report
import GraphKit.Text.Quoted

/-!
# What can go wrong at the console
-/

namespace GraphKit.Console

inductive Fault where
  -- commands
  | emptyRedirect
  | badSlicing
  | numberUnreadable
  | afterComparison (mark text : String)
  | intervalFormat (text : String)
  | intervalCount (text : String)
  | intervalFirst (item : String)
  | intervalSecond (item : String)
  | sizeOrder (text : String)
  | timeOrder (text : String)
  | sizeText (text : String)
  | negativeTime (text : String)
  | timeUnit (unit : String)
  | rangeLength
  | rangeFirst (typeText : String)
  | rangeSecond (typeText : String)
  | tensorName (text : String)
  /-- A command line that its options do not allow. -/
  | usage
  -- rich text
  | negativeIndex
  | badPattern (text : String)
  | columnsType
  | notRich (source : String)
  | linesType (typeText : String)
  -- commands by name
  | emptyPrefix
  | prefixTaken (word : String)
  | notCallable
  | helpNotText
  | aliasClash (word : String)
  | dispatchEmpty
  | noHandler (word : String)
  /-- A handler answered with something that is no text. -/
  | badOutput
  -- completion
  | contextType (typeText : String)
  | itemsType (typeText : String)
  | deregisterUnknown (word : String)
  | unregistered (word : String)
  /-- An item that is not there cannot be removed. -/
  | itemMissing
  -- histories and menus
  | commandNotText
  | noMenuItem (caption : String)
  | capacity (n : Int)
  | emptyHistory
  -- settings
  | unknownSetting (name : String)
  | notBool (text : String)
  | settingType (typeText : String)
  | callbackNotCallable
  -- tensors
  | metadataMissing
  | rankMismatch (requested actual : Nat)
  | indexTooLarge
  | indexNegative
  | notAscending
  -- operations on values that do not have them
  | wrongType
  | missingMember
  | missingKey
  | badIndex
  | overflow
  | divisionByZero
  | invalidValue
  | malformedText
deriving DecidableEq

def refused (message : String) : Report := ⟨.invalidValue, some message⟩

def Fault.report : Fault → Report
  | emptyRedirect => ⟨.malformedText, some "Redirect file path is empty"⟩
  | badSlicing => refused "Invalid tensor-slicing string."
  | numberUnreadable => ⟨.invalidValue, none⟩
  | afterComparison mark text => refused s!"Invalid value string after {mark} in '{text}'"
  | intervalFormat text => refused
      s!"Invalid interval format: {text}. Valid formats are: [min, max], (min, max), <max, >min"
  | intervalCount text => refused (s!"Incorrect interval format: {text}. Interval should " ++
      "specify two values: [min, max] or (min, max).")
  | intervalFirst item => refused s!"Invalid first item in interval: '{item}'"
  | intervalSecond item => refused s!"Invalid second item in interval: '{item}'"
  | sizeOrder text => refused (s!"Invalid interval {text}. Start of interval must be less than " ++
      "or equal to end of interval.")
  | timeOrder text => refused s!"Invalid interval {text}. Start must be before end of interval."
  | sizeText text => refused s!"Failed to parsed human-readable byte size str: \"{text}\""
  | negativeTime text => refused s!"Invalid time {text}. Time value must be positive."
  | timeUnit unit => refused s!"Invalid time unit: {unit}"
  | rangeLength => refused "Incorrect number of elements in range"
  | rangeFirst t => refused s!"Incorrect type in the 1st element of range: {t}"
  | rangeSecond t => refused s!"Incorrect type in the 2nd element of range: {t}"
  | tensorName text => refused (
      s!"The debug tensor name in the to-be-evaluated expression is malformed: '{text}'")
  | usage => ⟨.exit, none⟩
  | negativeIndex => refused "Encountered negative index."
  | badPattern text => refused s!"Invalid regular expression: \"{text}\""
  | columnsType => refused "Invalid type of input cols"
  | notRich source => ⟨.wrongType, some s!"{source} cannot be concatenated with a RichLine"⟩
  | linesType t => refused s!"Unexpected type in lines: {t}"
  | emptyPrefix => refused "Empty command prefix"
  | prefixTaken word => refused s!"A handler is already registered for command prefix \"{word}\""
  | notCallable => refused "handler is not callable"
  | helpNotText => refused "help_info is not a str"
  | aliasClash word => refused
      s!"The prefix alias \"{word}\" clashes with existing prefixes or aliases."
  | dispatchEmpty => refused "Prefix is empty"
  | noHandler word => refused s!"No handler is registered for command prefix \"{word}\""
  | badOutput => ⟨.invalidValue, none⟩
  | contextType t => ⟨.wrongType, some s!"Incorrect type in context_list: Expected list, got {t}"⟩
  | itemsType t => ⟨.wrongType, some s!"Incorrect type in comp_items: Expected list, got {t}"⟩
  | deregisterUnknown word =>
    ⟨.missingKey, some s!"Cannot deregister unregistered context word \"{word}\""⟩
  | unregistered word => ⟨.missingKey, some s!"Context word \"{word}\" has not been registered"⟩
  | itemMissing => ⟨.invalidValue, none⟩
  | commandNotText =>
    ⟨.wrongType, some "Attempt to enter non-str entry to command history"⟩
  | noMenuItem caption =>
    ⟨.failedLookup, some s!"There is no menu item with the caption \"{caption}\""⟩
  | capacity n => refused s!"In valid capacity value: {n}"
  | emptyHistory => refused "Empty navigation history"
  | unknownSetting name => ⟨.missingKey, some s!"{name} is not a valid property name."⟩
  | notBool text => refused s!"Invalid string value for bool type: {text}"
  | settingType t => ⟨.wrongType, some s!"Unsupported property type: {t}"⟩
  | callbackNotCallable =>
    ⟨.wrongType, some "The callback object provided is not callable."⟩
  | metadataMissing =>
    ⟨.missingMember, some "tensor_metadata is not available in annotations."⟩
  | rankMismatch requested actual => refused
      s!"Dimensions mismatch: requested: {requested}; actual: {actual}"
  | indexTooLarge => refused "Indices exceed tensor dimensions."
  | indexNegative => refused "Indices contain negative value(s)."
  | notAscending => refused "Input indices sets are not in ascending order."
  | wrongType => ⟨.wrongType, none⟩
  | missingMember => ⟨.missingMember, none⟩
  | missingKey => ⟨.missingKey, none⟩
  | badIndex => ⟨.badIndex, none⟩
  | overflow => ⟨.overflow, none⟩
  | divisionByZero => ⟨.divisionByZero, none⟩
  | invalidValue => ⟨.invalidValue, none⟩
  | malformedText => ⟨.malformedText, none⟩

end GraphKit.Console
