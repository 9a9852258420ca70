import ClassHeader.Text.Basic

/-!
# Opcodes

The first byte of each instruction, its mnemonic, and the form of the operand
that follows it.
-/

namespace ClassHeader.Bytecode

structure Opcode where
  code : UInt8
  deriving DecidableEq, Repr

/-- How the operand of an instruction is laid out. -/
inductive Form where
  | plain
  | byte
  | short
  | shortPool
  | pool
  | elementType
  | slot
  | increment
  | branch
  | farBranch
  | invokeInterface
  | invokeDynamic
  | multiArray
  | tableSwitch
  | lookupSwitch
  | wide
  | unsupported
  deriving DecidableEq, Repr

def Form.width? : Form → Option Nat
  | .plain => some 0
  | .byte | .shortPool | .elementType | .slot => some 1
  | .short | .pool | .increment | .branch => some 2
  | .multiArray => some 3
  | .farBranch | .invokeInterface | .invokeDynamic => some 4
  | .tableSwitch | .lookupSwitch | .wide | .unsupported => none

namespace Opcode

def mnemonics : List String :=
  ["nop", "aconst_null", "iconst_m1", "iconst_0", "iconst_1", "iconst_2", "iconst_3", "iconst_4",
    "iconst_5", "lconst_0", "lconst_1", "fconst_0", "fconst_1", "fconst_2", "dconst_0",
    "dconst_1", "bipush", "sipush", "ldc", "ldc_w", "ldc2_w", "iload", "lload", "fload", "dload",
    "aload", "iload_0", "iload_1", "iload_2", "iload_3", "lload_0", "lload_1", "lload_2",
    "lload_3", "fload_0", "fload_1", "fload_2", "fload_3", "dload_0", "dload_1", "dload_2",
    "dload_3", "aload_0", "aload_1", "aload_2", "aload_3", "iaload", "laload", "faload", "daload",
    "aaload", "baload", "caload", "saload", "istore", "lstore", "fstore", "dstore", "astore",
    "istore_0", "istore_1", "istore_2", "istore_3", "lstore_0", "lstore_1", "lstore_2",
    "lstore_3", "fstore_0", "fstore_1", "fstore_2", "fstore_3", "dstore_0", "dstore_1",
    "dstore_2", "dstore_3", "astore_0", "astore_1", "astore_2", "astore_3", "iastore", "lastore",
    "fastore", "dastore", "aastore", "bastore", "castore", "sastore", "pop", "pop2", "dup",
    "dup_x1", "dup_x2", "dup2", "dup2_x1", "dup2_x2", "swap", "iadd", "ladd", "fadd", "dadd",
    "isub", "lsub", "fsub", "dsub", "imul", "lmul", "fmul", "dmul", "idiv", "ldiv", "fdiv",
    "ddiv", "irem", "lrem", "frem", "drem", "ineg", "lneg", "fneg", "dneg", "ishl", "lshl",
    "ishr", "lshr", "iushr", "lushr", "iand", "land", "ior", "lor", "ixor", "lxor", "iinc", "i2l",
    "i2f", "i2d", "l2i", "l2f", "l2d", "f2i", "f2l", "f2d", "d2i", "d2l", "d2f", "i2b", "i2c",
    "i2s", "lcmp", "fcmpl", "fcmpg", "dcmpl", "dcmpg", "ifeq", "ifne", "iflt", "ifge", "ifgt",
    "ifle", "if_icmpeq", "if_icmpne", "if_icmplt", "if_icmpge", "if_icmpgt", "if_icmple",
    "if_acmpeq", "if_acmpne", "goto", "jsr", "ret", "tableswitch", "lookupswitch", "ireturn",
    "lreturn", "freturn", "dreturn", "areturn", "return", "getstatic", "putstatic", "getfield",
    "putfield", "invokevirtual", "invokespecial", "invokestatic", "invokeinterface",
    "invokedynamic", "new", "newarray", "anewarray", "arraylength", "athrow", "checkcast",
    "instanceof", "monitorenter", "monitorexit", "wide", "multianewarray", "ifnull", "ifnonnull",
    "goto_w", "jsr_w", "breakpoint"]

def table : List (Opcode × Bytes) :=
  mnemonics.zipIdx.map (fun (name, code) => (⟨UInt8.ofNat code⟩, text name)) ++
    [(⟨0xfe⟩, text "impdep1"), (⟨0xff⟩, text "impdep2")]

def name (op : Opcode) : Bytes :=
  match table.lookup op with
  | some name => name
  | none => text "opcode(0x" ++ Text.hex 2 op.code.toNat ++ text ")"

def ofName? (name : Bytes) : Option Opcode :=
  (table.find? (·.2 = name)).map (·.1)

def iinc : Opcode := ⟨0x84⟩

def form (op : Opcode) : Form :=
  let c := op.code
  if c = 0x10 then .byte
  else if c = 0x11 then .short
  else if c = 0x12 then .shortPool
  else if c = 0x13 ∨ c = 0x14 then .pool
  else if (0x15 ≤ c ∧ c ≤ 0x19) ∨ (0x36 ≤ c ∧ c ≤ 0x3a) ∨ c = 0xa9 then .slot
  else if c = 0x84 then .increment
  else if (0x99 ≤ c ∧ c ≤ 0xa8) ∨ c = 0xc6 ∨ c = 0xc7 then .branch
  else if c = 0xaa then .tableSwitch
  else if c = 0xab then .lookupSwitch
  else if (0xb2 ≤ c ∧ c ≤ 0xb8) ∨ c = 0xbb ∨ c = 0xbd ∨ c = 0xc0 ∨ c = 0xc1 then .pool
  else if c = 0xb9 then .invokeInterface
  else if c = 0xba then .invokeDynamic
  else if c = 0xbc then .elementType
  else if c = 0xc4 then .wide
  else if c = 0xc5 then .multiArray
  else if c = 0xc8 ∨ c = 0xc9 then .farBranch
  else if c ≤ 0xc9 then .plain
  else .unsupported

def width? (op : Opcode) : Option Nat := op.form.width?

def isSupported (op : Opcode) : Bool := op.form ≠ .unsupported

def isBranch (op : Opcode) : Bool :=
  match op.form with
  | .branch | .farBranch | .tableSwitch | .lookupSwitch => true
  | _ => false

def referencesPool (op : Opcode) : Bool :=
  match op.form with
  | .shortPool | .pool | .invokeInterface | .invokeDynamic | .multiArray => true
  | _ => false

end Opcode
end ClassHeader.Bytecode
