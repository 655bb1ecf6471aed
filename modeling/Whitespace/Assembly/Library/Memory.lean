/-
Module: Whitespace.Assembly.Library.Memory
Purpose: A bump allocator, and routines for blocks of memory and for texts that end with a zero cell.
Main exports: memoryLines
-/

namespace Whitespace.Assembly.Library

/-- The library `memory`, line by line. -/
def memoryLines : List String :=
  ["; A bump allocator and helpers over NUL-terminated heap strings.",
   "; Heap cell 0 holds the next free address; call memory_init before alloc.",
   "jump __memory_end",
   "",
   "; ( -- )",
   "label memory_init",
   "push 0",
   "push 1024",
   "store",
   "ret",
   "",
   "; ( size -- address )",
   "label alloc",
   "push 0",
   "retrieve",
   "swap",
   "copy 1",
   "add",
   "push 0",
   "swap",
   "store",
   "ret",
   "",
   "; ( value count address -- ) writes value into count cells starting at address",
   "label memfill",
   "label __memory_fill_loop",
   "copy 1",
   "jumpz __memory_fill_done",
   "dup",
   "copy 3",
   "store",
   "add 1",
   "swap",
   "sub 1",
   "swap",
   "jump __memory_fill_loop",
   "label __memory_fill_done",
   "pop",
   "pop",
   "pop",
   "ret",
   "",
   "; ( address -- length ) length of the NUL-terminated string at address",
   "label strlen",
   "push 0",
   "label __memory_strlen_loop",
   "copy 1",
   "copy 1",
   "add",
   "retrieve",
   "jumpz __memory_strlen_done",
   "add 1",
   "jump __memory_strlen_loop",
   "label __memory_strlen_done",
   "slide 1",
   "ret",
   "",
   "label __memory_end"]

end Whitespace.Assembly.Library
