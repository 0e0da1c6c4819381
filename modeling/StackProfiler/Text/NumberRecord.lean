import StackProfiler.Text.Quoted

/-!
# Records of numbers as text

A record of named numbers and records is written in three ways: as one line of JSON, as indented
JSON, and spelled out with the names of its types.
-/

namespace StackProfiler.Text

/-- A number, or a named record of such values, some of which may be absent. -/
inductive NumberRecord where
  | number (n : Int)
  | record (type : String) (fields : List (String × NumberRecord))
  /-- A value that may be absent, and is not. -/
  | present (value : NumberRecord)
  | absent

namespace NumberRecord

/-- Whether a value takes no part in JSON text. -/
def isAbsent : NumberRecord → Bool
  | absent => true
  | _ => false

mutual

/-- The value as one line of JSON; an absent value is left out of its record. -/
def compact : NumberRecord → String
  | number n => toString n
  | record _ fields => "\x7b" ++ ",".intercalate (compactFields fields) ++ "\x7d"
  | present value => compact value
  | absent => "null"

def compactFields : List (String × NumberRecord) → List String
  | [] => []
  | (name, value) :: fields =>
    if value.isAbsent then compactFields fields
    else (quoted name ++ ":" ++ compact value) :: compactFields fields

end

mutual

/-- The value as JSON with every field on a line of its own, two blanks deeper at each level. -/
def indented (depth : Nat) : NumberRecord → String
  | number n => toString n
  | record _ fields =>
    match indentedFields (depth + 1) fields with
    | [] => "\x7b\x7d"
    | lines => "\x7b\n" ++ ",\n".intercalate lines ++ "\n" ++ margin depth ++ "\x7d"
  | present value => indented depth value
  | absent => "null"
where
  /-- The blanks in front of a line. -/
  margin (depth : Nat) : String := String.ofList (List.replicate (2 * depth) ' ')

def indentedFields (depth : Nat) : List (String × NumberRecord) → List String
  | [] => []
  | (name, value) :: fields =>
    if value.isAbsent then indentedFields depth fields
    else
      (String.ofList (List.replicate (2 * depth) ' ') ++ quoted name ++ ": "
        ++ indented depth value) :: indentedFields depth fields

end

mutual

/-- The value spelled out with the names of its types. -/
def spelled : NumberRecord → String
  | number n => toString n
  | record type fields => type ++ " \x7b " ++ ", ".intercalate (spelledFields fields) ++ " \x7d"
  | present value => "Some(" ++ spelled value ++ ")"
  | absent => "None"

def spelledFields : List (String × NumberRecord) → List String
  | [] => []
  | (name, value) :: fields => (name ++ ": " ++ spelled value) :: spelledFields fields

end

end NumberRecord

end StackProfiler.Text
