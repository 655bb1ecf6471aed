/-
Module: Whitespace.Assembly.Library.Io
Purpose: Routines that print texts and numbers and read lines and numbers.
Main exports: ioLines
-/

namespace Whitespace.Assembly.Library

/-- The library `io`, line by line. -/
def ioLines : List String :=
  ["; Printing and reading helpers.",
   "; Stack effects are noted as ( before -- after ), top of stack on the right.",
   "jump __io_end",
   "",
   "; ( address -- ) prints the NUL-terminated string starting at address",
   "label print_str",
   "label __io_print_str_loop",
   "dup",
   "retrieve",
   "dup",
   "jumpz __io_print_str_done",
   "outc",
   "add 1",
   "jump __io_print_str_loop",
   "label __io_print_str_done",
   "pop",
   "pop",
   "ret",
   "",
   "; ( n -- ) prints n followed by a line feed",
   "label println_num",
   "outn",
   "label print_newline",
   "push 10",
   "outc",
   "ret",
   "",
   "; ( address -- ) reads a line into memory at address, NUL-terminated, without the line feed",
   "label read_line",
   "label __io_read_line_loop",
   "dup",
   "readc",
   "dup",
   "retrieve",
   "dup",
   "sub 10",
   "jumpz __io_read_line_done",
   "pop",
   "add 1",
   "jump __io_read_line_loop",
   "label __io_read_line_done",
   "pop",
   "push 0",
   "store",
   "ret",
   "",
   "; ( address -- n ) reads a number, using address as scratch space",
   "label read_num",
   "dup",
   "readn",
   "retrieve",
   "ret",
   "",
   "label __io_end"]

end Whitespace.Assembly.Library
