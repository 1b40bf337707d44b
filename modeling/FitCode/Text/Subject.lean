import FitCode.Text.Quoted

/-! # What a field of a template can show

A field starts from a text and may go on to its attributes: its class, the names and bases of
classes, and its methods. The text of a method names the place where its owner is kept, which the
machine decides.
-/
namespace FitCode.Text

inductive Class where
  | text
  | object
  | type
  | tuple
  | none
  | method
  | methodWrapper
  | methodDescriptor
  | slotWrapper
  deriving Repr, DecidableEq

inductive Subject where
  | text (cs : List Char)
  | classOf (c : Class)
  | tuple (items : List Subject)
  | nothing
  /-- A method of a text. -/
  | method (name : String) (isSlot : Bool) (owner : List Char)
  /-- A method as its class holds it. -/
  | descriptor (name : String) (isSlot : Bool)

namespace Class

def name : Class → String
  | text => "str"
  | object => "object"
  | type => "type"
  | tuple => "tuple"
  | none => "NoneType"
  | method => "builtin_function_or_method"
  | methodWrapper => "method-wrapper"
  | methodDescriptor => "method_descriptor"
  | slotWrapper => "wrapper_descriptor"

def doc? : Class → Option String
  | text => some ("str(object='') -> str\nstr(bytes_or_buffer[, encoding[, errors]]) -> str\n\n" ++
      "Create a new string object from the given object. If encoding or\n" ++
      "errors is specified, then the object must expose a data buffer\n" ++
      "that will be decoded using the given encoding and error handler.\n" ++
      "Otherwise, returns the result of object.__str__() (if defined)\nor repr(object).\n" ++
      "encoding defaults to sys.getdefaultencoding().\nerrors defaults to 'strict'.")
  | object => some ("The base class of the class hierarchy.\n\n" ++
      "When called, it accepts no arguments and returns a new featureless\n" ++
      "instance that has no instance attributes and cannot be given any.\n")
  | type => some ("type(object) -> the object's type\n" ++
      "type(name, bases, dict, **kwds) -> a new type")
  | tuple => some ("Built-in immutable sequence.\n\n" ++
      "If no argument is given, the constructor returns an empty tuple.\n" ++
      "If iterable is specified the tuple is initialized from iterable's items.\n\n" ++
      "If the argument is a tuple, the return value is the same object.")
  | _ => .none

def lineage : Class → List Class
  | object => [object]
  | c => [c, object]

end Class

def methodNames : List String :=
  ["__format__", "__getnewargs__", "__sizeof__", "capitalize", "casefold", "center", "count",
   "encode", "endswith", "expandtabs", "find", "format", "format_map", "index", "isalnum",
   "isalpha", "isascii", "isdecimal", "isdigit", "isidentifier", "islower", "isnumeric",
   "isprintable", "isspace", "istitle", "isupper", "join", "ljust", "lower", "lstrip",
   "partition", "removeprefix", "removesuffix", "replace", "rfind", "rindex", "rjust",
   "rpartition", "rsplit", "rstrip", "split", "splitlines", "startswith", "strip", "swapcase",
   "title", "translate", "upper", "zfill"]

def slotNames : List String :=
  ["__add__", "__contains__", "__eq__", "__ge__", "__getattribute__", "__getitem__", "__gt__",
   "__hash__", "__iter__", "__le__", "__len__", "__lt__", "__mod__", "__mul__", "__ne__",
   "__repr__", "__rmod__", "__rmul__", "__str__"]

namespace Subject

def ofString (s : String) : Subject := text s.toList

def classRef : Subject → Class
  | text _ => .text
  | classOf _ => .type
  | tuple _ => .tuple
  | nothing => .none
  | method _ isSlot _ => if isSlot then .methodWrapper else .method
  | descriptor _ isSlot => if isSlot then .slotWrapper else .methodDescriptor

def classes (cs : List Class) : Subject := tuple (cs.map classOf)

def ofDoc (c : Class) : Subject := (c.doc?).elim nothing ofString

def classAttribute? (c : Class) (name : String) : Option Subject :=
  match name with
  | "__name__" => some (ofString c.name)
  | "__qualname__" => some (ofString c.name)
  | "__module__" => some (ofString "builtins")
  | "__doc__" => some (ofDoc c)
  | "__base__" => some ((c.lineage.drop 1).head?.elim nothing classOf)
  | "__bases__" => some (classes (c.lineage.drop 1))
  | "__mro__" => some (classes c.lineage)
  | name =>
    if c = .text && methodNames.contains name then some (descriptor name false)
    else if c = .text && slotNames.contains name then some (descriptor name true)
    else none

def methodAttribute? (method : String) (name : String) : Option Subject :=
  match name with
  | "__name__" => some (ofString method)
  | "__qualname__" => some (ofString ("str." ++ method))
  | _ => none

def attribute? (s : Subject) (name : String) : Option Subject :=
  if name == "__class__" then some (classOf s.classRef)
  else
    match s with
    | text cs =>
      if name == "__doc__" then some (ofDoc .text)
      else if methodNames.contains name then some (method name false cs)
      else if slotNames.contains name then some (method name true cs)
      else none
    | classOf c => classAttribute? c name
    | tuple _ => if name == "__doc__" then some (ofDoc .tuple) else none
    | nothing => if name == "__doc__" then some nothing else none
    | method m isSlot owner =>
      if name == "__self__" then some (text owner)
      else if name == "__objclass__" && isSlot then some (classOf .text)
      else if name == "__module__" && !isSlot then some nothing
      else methodAttribute? m name
    | descriptor m _ =>
      if name == "__objclass__" then some (classOf .text) else methodAttribute? m name

mutual

/-- How a subject is shown inside other values, where `address` says where texts are kept. -/
def described (address : List Char → Nat) : Subject → List Char
  | text cs => quoteWith isPrinted cs
  | classOf c => ("<class '" ++ c.name ++ "'>").toList
  | tuple [s] => '(' :: described address s ++ [',', ')']
  | tuple ss => '(' :: describedAll address ss ++ [')']
  | nothing => "None".toList
  | method name isSlot owner =>
    ((if isSlot then "<method-wrapper '" ++ name ++ "'" else "<built-in method " ++ name) ++
      " of str object at 0x").toList ++ Nat.toDigits 16 (address owner) ++ ['>']
  | descriptor name isSlot =>
    ((if isSlot then "<slot wrapper '" else "<method '") ++ name ++ "' of 'str' objects>").toList

def describedAll (address : List Char → Nat) : List Subject → List Char
  | [] => []
  | [s] => described address s
  | s :: ss => described address s ++ [',', ' '] ++ describedAll address ss

end

def shown (address : List Char → Nat) : Subject → List Char
  | text cs => cs
  | s => s.described address

def describedAscii (address : List Char → Nat) : Subject → List Char
  | text cs => quotedAscii cs
  | s => s.described address

end Subject

end FitCode.Text
