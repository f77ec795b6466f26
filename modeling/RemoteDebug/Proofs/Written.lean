import RemoteDebug.ClassFile.Basic
import RemoteDebug.Proofs.Reads

/-!
# Class files as they are written

A `Written.File` describes a class file by its parts, down to the bytes of texts, bodies and what
is left over at the end of a body. `File.encode` writes it, `File.Valid` says when it may be
written, and `File.model` is what a debugger keeps of it. None of the three reads anything.

Attributes nest : the body of a `code` attribute ends with attributes of its own. The form of an
attribute goes with the text its name index leads to, at every depth (`Attribute.WellFormed`). What
follows the content of a body is free, and so is what follows the attributes of the class.
-/

namespace RemoteDebug.ClassFile

/-! ## Looking into the pool -/

/-- The entry at an index, if there is one. -/
def Pool.entry? (pool : Pool) (index : UInt16) : Option Entry :=
  match index.toNat with
  | 0 => none
  | slot + 1 => pool.slots[slot]?

/-- The text at an index, if there is one. -/
def Pool.text? (pool : Pool) (index : UInt16) : Option String :=
  match pool.entry? index with
  | some (.utf8 text) => some text
  | _ => none

/-- The entry at the index is a class. -/
def Pool.HasClass (pool : Pool) (index : UInt16) : Prop :=
  ∃ name, pool.entry? index = some (.classRef name)

/-- The entry at the index is a name with a type. -/
def Pool.HasNameAndType (pool : Pool) (index : UInt16) : Prop :=
  ∃ name descriptor, pool.entry? index = some (.nameAndType name descriptor)

/-- The entry at the index is a field, a method or a method of an interface. -/
def Pool.HasMember (pool : Pool) (index : UInt16) : Prop :=
  ∃ owner member, pool.entry? index = some (.fieldRef owner member) ∨
    pool.entry? index = some (.methodRef owner member) ∨
    pool.entry? index = some (.interfaceMethodRef owner member)

namespace Written

/-- A word of two bytes. -/
def word (w : UInt16) : Bytes := Bytes.toBig 2 w.toNat

/-! ## Constants -/

/-- A constant of the pool. -/
inductive Constant where
  | utf8 (text : Bytes)
  | integer (bits : UInt32)
  | float (bits : UInt32)
  | long (bits : UInt64)
  | double (bits : UInt64)
  | classRef (name : UInt16)
  | string (text : UInt16)
  | methodType (descriptor : UInt16)
  | fieldRef (owner member : UInt16)
  | methodRef (owner member : UInt16)
  | interfaceMethodRef (owner member : UInt16)
  | nameAndType (name descriptor : UInt16)
  | methodHandle (kind : UInt8) (target : UInt16)
  | invokeDynamic (bootstrap member : UInt16)
  deriving DecidableEq, Repr

namespace Constant

/-- The byte that announces a constant. -/
def tag : Constant → UInt8
  | .utf8 _ => 1
  | .integer _ => 3
  | .float _ => 4
  | .long _ => 5
  | .double _ => 6
  | .classRef _ => 7
  | .string _ => 8
  | .fieldRef _ _ => 9
  | .methodRef _ _ => 10
  | .interfaceMethodRef _ _ => 11
  | .nameAndType _ _ => 12
  | .methodHandle _ _ => 15
  | .methodType _ => 16
  | .invokeDynamic _ _ => 18

/-- What follows the tag. -/
def body : Constant → Bytes
  | .utf8 text => Bytes.toBig 2 text.length ++ text
  | .integer bits | .float bits => Bytes.toBig 4 bits.toNat
  | .long bits | .double bits => Bytes.toBig 8 bits.toNat
  | .classRef index | .string index | .methodType index => word index
  | .fieldRef owner member | .methodRef owner member | .interfaceMethodRef owner member =>
    word owner ++ word member
  | .nameAndType name descriptor => word name ++ word descriptor
  | .methodHandle kind target => kind :: word target
  | .invokeDynamic bootstrap member => word bootstrap ++ word member

/-- The bytes of a constant. -/
def encode (k : Constant) : Bytes := k.tag :: k.body

/-- A text has a length that a word can say. -/
def Fits : Constant → Prop
  | .utf8 text => text.length < UInt16.size
  | _ => True

/-- The entry that a constant is in the pool. -/
def entry : Constant → Entry
  | .utf8 text => .utf8 (Utf8.decodeLossy text)
  | .integer bits => .integer bits
  | .float bits => .float bits
  | .long bits => .long bits
  | .double bits => .double bits
  | .classRef name => .classRef name
  | .string text => .string text
  | .methodType descriptor => .methodType descriptor
  | .fieldRef owner member => .fieldRef owner member
  | .methodRef owner member => .methodRef owner member
  | .interfaceMethodRef owner member => .interfaceMethodRef owner member
  | .nameAndType name descriptor => .nameAndType name descriptor
  | .methodHandle kind target => .methodHandle kind target
  | .invokeDynamic bootstrap member => .invokeDynamic bootstrap member

/-- The slots that a constant fills. -/
def slots : Constant → List Entry
  | .long bits => [.long bits, .reserved]
  | .double bits => [.double bits, .reserved]
  | k => [k.entry]

/-- The references of a constant lead where they should. -/
def Linked (pool : Pool) : Constant → Prop
  | .classRef name => (pool.text? name).isSome
  | .string text => (pool.text? text).isSome
  | .methodType descriptor => (pool.text? descriptor).isSome
  | .fieldRef owner member | .methodRef owner member | .interfaceMethodRef owner member =>
    pool.HasClass owner ∧ pool.HasNameAndType member
  | .nameAndType name descriptor => (pool.text? name).isSome ∧ (pool.text? descriptor).isSome
  | .methodHandle _ target => pool.HasMember target
  | .invokeDynamic _ member => pool.HasNameAndType member
  | .utf8 _ | .integer _ | .float _ | .long _ | .double _ => True

end Constant

/-- The pool that some constants fill. -/
def poolOf (constants : List Constant) : Pool := ⟨(constants.flatMap Constant.slots).toArray⟩

/-! ## Attributes -/

/-- A row of an exception table. -/
structure Handler where
  startPc : UInt16
  endPc : UInt16
  handlerPc : UInt16
  catchType : UInt16
  deriving DecidableEq, Repr

/-- The bytes of a row of an exception table. -/
def Handler.encode (h : Handler) : Bytes :=
  word h.startPc ++ word h.endPc ++ word h.handlerPc ++ word h.catchType

/-- The bytes of a row of a line table. -/
def encodeRow (row : LineEntry) : Bytes := word row.startPc ++ word row.line

/-- An attribute. -/
inductive Attribute where
  | code (name maxStack maxLocals : UInt16) (instructions : Bytes) (handlers : List Handler)
      (attributes : List Attribute) (leftover : Bytes)
  | lines (name : UInt16) (rows : List LineEntry) (leftover : Bytes)
  | other (name : UInt16) (body : Bytes)

/-- The name index of an attribute. -/
def Attribute.name : Attribute → UInt16
  | .code name .. | .lines name .. | .other name _ => name

mutual

/-- The body of an attribute. -/
def Attribute.body : Attribute → Bytes
  | .code _ maxStack maxLocals instructions handlers attributes leftover =>
    word maxStack ++ word maxLocals ++ Bytes.toBig 4 instructions.length ++ instructions
      ++ Bytes.toBig 2 handlers.length ++ handlers.flatMap Handler.encode
      ++ Bytes.toBig 2 attributes.length ++ encodeAll attributes ++ leftover
  | .lines _ rows leftover => Bytes.toBig 2 rows.length ++ rows.flatMap encodeRow ++ leftover
  | .other _ body => body

/-- The bytes of some attributes : name, length and body of each. -/
def encodeAll : List Attribute → Bytes
  | [] => []
  | a :: rest => word a.name ++ Bytes.toBig 4 a.body.length ++ a.body ++ encodeAll rest

end

/-- The bytes of an attribute table : a count, then that many attributes. -/
def encodeTable (attributes : List Attribute) : Bytes :=
  Bytes.toBig 2 attributes.length ++ encodeAll attributes

mutual

/-- The form of an attribute is the one that its name demands. -/
def Attribute.WellFormed (pool : Pool) : Attribute → Prop
  | .code name _ _ instructions handlers attributes _ =>
    pool.text? name = some "Code" ∧ instructions.length < UInt32.size ∧
      handlers.length < UInt16.size ∧ attributes.length < UInt16.size ∧ AllValid pool attributes
  | .lines name rows _ => pool.text? name = some "LineNumberTable" ∧ rows.length < UInt16.size
  | .other name _ => ∃ text, pool.text? name = some text ∧ text ≠ "Code" ∧
      text ≠ "LineNumberTable"

/-- The attributes are well-formed, with bodies whose length a word can say. -/
def AllValid (pool : Pool) : List Attribute → Prop
  | [] => True
  | a :: rest => a.WellFormed pool ∧ a.body.length < UInt32.size ∧ AllValid pool rest

end

/-- The rows of a line table. -/
def Attribute.rows? : Attribute → Option (List LineEntry)
  | .lines _ rows _ => some rows
  | _ => none

/-- The rows of all line tables among some attributes, or nothing when there is none. -/
def allRows (attributes : List Attribute) : Option (List LineEntry) :=
  match attributes.filterMap Attribute.rows? with
  | [] => none
  | tables => some tables.flatten

/-- The code in a code attribute. Its lines are those of the line tables directly in it. -/
def Attribute.code? : Attribute → Option Code
  | .code _ maxStack maxLocals instructions _ attributes _ =>
    some ⟨maxStack, maxLocals, instructions, allRows attributes⟩
  | _ => none

/-! ## Members -/

/-- A field or a method. -/
structure Member where
  flags : UInt16
  name : UInt16
  descriptor : UInt16
  attributes : List Attribute

namespace Member

/-- The bytes of a member. -/
def encode (m : Member) : Bytes :=
  word m.flags ++ word m.name ++ word m.descriptor ++ encodeTable m.attributes

/-- The attributes of a member are valid. -/
def Valid (pool : Pool) (m : Member) : Prop :=
  m.attributes.length < UInt16.size ∧ AllValid pool m.attributes

/-- Name and descriptor of a member are texts. -/
def Named (pool : Pool) (m : Member) : Prop :=
  (pool.text? m.name).isSome ∧ (pool.text? m.descriptor).isSome

/-- The method that a member is. Its code is that of the first code attribute. -/
def method (pool : Pool) (m : Member) : Method where
  flags := m.flags
  name := (pool.text? m.name).getD ""
  descriptor := (pool.text? m.descriptor).getD ""
  code := m.attributes.findSome? Attribute.code?

/-- The member is neither native nor a bridge. -/
def Kept (m : Member) : Prop := m.flags &&& 0x0100 = 0 ∧ m.flags &&& 0x0040 = 0

instance : DecidablePred Kept := fun m =>
  inferInstanceAs (Decidable (m.flags &&& 0x0100 = 0 ∧ m.flags &&& 0x0040 = 0))

end Member

/-! ## Files -/

/-- What follows the header words of a class file. -/
structure Body where
  interfaces : List UInt16
  fields : List Member
  methods : List Member
  /-- The attributes of the class and whatever follows them, or nothing at all. -/
  ending : Option (List Attribute × Bytes)

/-- The bytes of what follows the methods. -/
def encodeEnding : Option (List Attribute × Bytes) → Bytes
  | none => []
  | some (attributes, trailing) => encodeTable attributes ++ trailing

/-- The bytes of what follows the header words. -/
def Body.encode (d : Body) : Bytes :=
  Bytes.toBig 2 d.interfaces.length ++ d.interfaces.flatMap word
    ++ Bytes.toBig 2 d.fields.length ++ d.fields.flatMap Member.encode
    ++ Bytes.toBig 2 d.methods.length ++ d.methods.flatMap Member.encode ++ encodeEnding d.ending

/-- What follows the header words may be written. -/
structure Body.Valid (pool : Pool) (d : Body) : Prop where
  interfaces : d.interfaces.length < UInt16.size
  fields : d.fields.length < UInt16.size ∧ ∀ m ∈ d.fields, m.Valid pool
  methods : d.methods.length < UInt16.size ∧ ∀ m ∈ d.methods, m.Named pool ∧ m.Valid pool
  ending : ∀ attributes trailing, d.ending = some (attributes, trailing) →
    attributes.length < UInt16.size ∧ AllValid pool attributes

/-- A class file. -/
structure File extends Body where
  minorVersion : UInt16
  majorVersion : UInt16
  /-- One more than the number of slots, or 0. -/
  poolCount : UInt16
  constants : List Constant
  flags : UInt16
  thisClass : UInt16
  superClass : UInt16

namespace File

/-- The pool of a class file. -/
def pool (d : File) : Pool := poolOf d.constants

/-- The bytes of a class file after its mark. -/
def content (d : File) : Bytes :=
  word d.minorVersion ++ word d.majorVersion ++ word d.poolCount
    ++ d.constants.flatMap Constant.encode ++ word d.flags ++ word d.thisClass ++ word d.superClass
    ++ d.toBody.encode

/-- The bytes of a class file. -/
def encode (d : File) : Bytes := [0xCA, 0xFE, 0xBA, 0xBE] ++ d.content

/-- The description may be written. -/
structure Valid (d : File) : Prop where
  slots : (d.constants.flatMap Constant.slots).length = d.poolCount.toNat - 1
  fits : ∀ k ∈ d.constants, k.Fits
  linked : ∀ k ∈ d.constants, k.Linked d.pool
  body : d.toBody.Valid d.pool

/-- What a debugger keeps of a class file. -/
def model (d : File) : ClassFile where
  minorVersion := d.minorVersion
  majorVersion := d.majorVersion
  pool := d.pool
  flags := d.flags
  thisClass := d.thisClass
  superClass := d.superClass
  interfaceCount := UInt16.ofNat d.interfaces.length
  methods := (d.methods.filter Member.Kept).map (Member.method d.pool)

end File

end Written

end RemoteDebug.ClassFile
