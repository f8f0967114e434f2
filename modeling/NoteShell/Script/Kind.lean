/-!
# Types, builtin functions and methods by name

The closed sets of names that the language provides: the types of values, the builtin functions, the
methods of texts, lists and dicts, and the read-only names that show the shared context.
-/

namespace NoteShell.Script

/-- The types of values. -/
inductive TypeName where
  | none
  | bool
  | int
  | float
  | str
  | list
  | dict
  | range
  | function
  | builtin
  | type
deriving DecidableEq

/-- The name of a type. -/
def TypeName.text : TypeName → String
  | none => "NoneType"
  | bool => "bool"
  | int => "int"
  | float => "float"
  | str => "str"
  | list => "list"
  | dict => "dict"
  | range => "range"
  | function => "function"
  | builtin => "builtin_function_or_method"
  | type => "type"

/-- The builtin functions. -/
inductive Builtin where
  | print | len | str | repr | int | float | bool | list | range | abs | min | max | sum | round
  | sorted | type | keys | values | getFrontmatter | info | available
deriving DecidableEq

namespace Builtin

/-- All builtin functions. -/
def all : List Builtin :=
  [print, len, str, repr, int, float, bool, list, range, abs, min, max, sum, round, sorted, type,
    keys, values, getFrontmatter, info, available]

/-- The name of a builtin function. -/
def name : Builtin → String
  | print => "print"
  | len => "len"
  | str => "str"
  | repr => "repr"
  | int => "int"
  | float => "float"
  | bool => "bool"
  | list => "list"
  | range => "range"
  | abs => "abs"
  | min => "min"
  | max => "max"
  | sum => "sum"
  | round => "round"
  | sorted => "sorted"
  | type => "type"
  | keys => "keys"
  | values => "values"
  | getFrontmatter => "get_frontmatter"
  | info => "info"
  | available => "available"

/-- The builtin function with the given name. -/
def ofName? (name : String) : Option Builtin := all.find? fun b => b.name == name

end Builtin

/-- The methods of texts. -/
inductive StrMethod where
  | upper | lower | strip | lstrip | rstrip | split | join | replace | startsWith | endsWith | find
  | count
deriving DecidableEq

namespace StrMethod

/-- All methods of texts. -/
def all : List StrMethod :=
  [upper, lower, strip, lstrip, rstrip, split, join, replace, startsWith, endsWith, find, count]

/-- The name of a method. -/
def name : StrMethod → String
  | upper => "upper"
  | lower => "lower"
  | strip => "strip"
  | lstrip => "lstrip"
  | rstrip => "rstrip"
  | split => "split"
  | join => "join"
  | replace => "replace"
  | startsWith => "startswith"
  | endsWith => "endswith"
  | find => "find"
  | count => "count"

/-- The method with the given name. -/
def ofName? (name : String) : Option StrMethod := all.find? fun m => m.name == name

end StrMethod

/-- The methods of lists. -/
inductive ListMethod where
  | append | extend | insert | pop | remove | index | count | clear | reverse | sort | copy
deriving DecidableEq

namespace ListMethod

/-- All methods of lists. -/
def all : List ListMethod :=
  [append, extend, insert, pop, remove, index, count, clear, reverse, sort, copy]

/-- The name of a method. -/
def name : ListMethod → String
  | append => "append"
  | extend => "extend"
  | insert => "insert"
  | pop => "pop"
  | remove => "remove"
  | index => "index"
  | count => "count"
  | clear => "clear"
  | reverse => "reverse"
  | sort => "sort"
  | copy => "copy"

/-- The method with the given name. -/
def ofName? (name : String) : Option ListMethod := all.find? fun m => m.name == name

end ListMethod

/-- The methods of dicts. -/
inductive DictMethod where
  | get | keys | values | items | pop | update | clear | copy
deriving DecidableEq

namespace DictMethod

/-- All methods of dicts. -/
def all : List DictMethod := [get, keys, values, items, pop, update, clear, copy]

/-- The name of a method. -/
def name : DictMethod → String
  | get => "get"
  | keys => "keys"
  | values => "values"
  | items => "items"
  | pop => "pop"
  | update => "update"
  | clear => "clear"
  | copy => "copy"

/-- The method with the given name. -/
def ofName? (name : String) : Option DictMethod := all.find? fun m => m.name == name

end DictMethod

/-- The names that show the shared context. -/
inductive ContextName where
  | frontmatter
  | context
  | notePath
deriving DecidableEq

namespace ContextName

/-- All names that show the shared context. -/
def all : List ContextName := [frontmatter, context, notePath]

/-- The spelling of a name. -/
def name : ContextName → String
  | frontmatter => "frontmatter"
  | context => "context"
  | notePath => "note_path"

/-- The context name with the given spelling. -/
def ofName? (name : String) : Option ContextName := all.find? fun c => c.name == name

end ContextName

/-- The names that skills cannot take. -/
def coreNames : List String := Builtin.all.map Builtin.name ++ ContextName.all.map ContextName.name

end NoteShell.Script
