import Mathlib.Tactic

/-!
# The name tables of the cart verifier

`runtime/host/src/libblyt/cart_load.c`: the section names that are refused, the
libraries a cart may need, the symbols it may import, the entry points it must
define, and the interpreter path.
-/

namespace Blyt

/-- The bytes of a name, without the terminator. -/
def bytesOf (s : String) : List UInt8 := s.toList.map fun c => UInt8.ofNat c.toNat

def deniedSections : List String :=
  [".init_array", ".fini_array", ".preinit_array", ".ctors", ".dtors"]

def neededAllowlist : List String := ["libblyt32.so", "libblyt32lua.so"]

def requiredEntryPoints : List String :=
  ["blyt_cart_init", "blyt_cart_update", "blyt_cart_draw"]

/-- `BLYT_INTERP_PATH`, with its terminator. -/
def interpPath : List UInt8 := bytesOf "/lib/ld-blyt.so.1" ++ [0]

def symbolAllowlist : List String :=
  ["blyt_main", "blyt_exit", "blyt_runtime_startup", "blyt_console_debug", "blyt_quit",
   "blyt_frame_done", "blyt_buffer_get_f32", "blyt_buffer_set_f32", "blyt_buffer_get_f64",
   "blyt_buffer_set_f64", "blyt_buffer_get_i32", "blyt_buffer_set_i32", "blyt_buffer_get_u32",
   "blyt_buffer_set_u32", "blyt_buffer_get_i16", "blyt_buffer_set_i16", "blyt_buffer_get_u16",
   "blyt_buffer_set_u16", "blyt_buffer_get_i8", "blyt_buffer_set_i8", "blyt_buffer_get_u8",
   "blyt_buffer_set_u8", "blyt_buffer_get_bool", "blyt_buffer_set_bool", "blyt_buffer_alloc_slot",
   "blyt_buffer_free_slot", "blyt_buffer_ref", "blyt_buffer_ref_valid", "blyt_save_write",
   "blyt_save_read", "blyt_resource_pin", "blyt_resource_unpin", "blyt_resource_text_get",
   "blyt_resource_bytes_get", "blyt_surface_create", "blyt_surface_destroy", "blyt_surface_clear",
   "blyt_surface_pixel", "blyt_surface_rect_fill", "blyt_surface_line", "blyt_surface_blit",
   "blyt_surface_acquire", "blyt_surface_release", "blyt_gfx_acquire", "blyt_gfx_present",
   "blyt_gfx_palette_set", "blyt_raster_clear", "blyt_raster_pixel", "blyt_raster_rect_fill",
   "blyt_raster_line", "blyt_raster_blit", "blyt_mem_stats", "blyt_mem_resources", "malloc",
   "free", "realloc", "calloc", "aligned_alloc", "posix_memalign", "abort", "memcpy", "memmove",
   "memset", "memcmp", "memchr", "strlen", "strcmp", "strncmp", "strcpy", "strncpy", "strcat",
   "strncat", "strchr", "strrchr", "strstr", "strtok", "strtok_r", "strdup", "strndup",
   "strcasecmp", "strncasecmp", "mempcpy", "stpcpy", "stpncpy", "explicit_bzero", "bcopy",
   "bzero", "bcmp", "strerror", "strtol", "strtoul", "strtoll", "strtoull", "strtod", "strtof",
   "atoi", "atol", "atoll", "atof", "qsort", "bsearch", "abs", "labs", "llabs", "snprintf",
   "vsnprintf", "sscanf", "vsscanf", "fmemopen", "fclose", "fread", "fwrite", "fseek", "ftell",
   "rewind", "feof", "ferror", "clearerr", "setjmp", "longjmp", "isalpha", "isdigit", "isalnum",
   "isspace", "ispunct", "islower", "isupper", "isprint", "iscntrl", "isxdigit", "tolower",
   "toupper", "sinf", "cosf", "tanf", "asinf", "acosf", "atanf", "atan2f", "expf", "exp2f",
   "logf", "log2f", "log10f", "powf", "sqrtf", "cbrtf", "fabsf", "floorf", "ceilf", "roundf",
   "truncf", "nearbyintf", "rintf", "fmodf", "remainderf", "hypotf", "fmaf", "ldexpf", "frexpf",
   "modff", "copysignf", "fmaxf", "fminf", "fdimf", "scalbnf", "scalblnf", "logbf",
   "significandf", "ilogbf", "j0f", "j1f", "lgammaf", "tgammaf", "erff", "erfcf", "sinh", "cosh",
   "tanh", "sinhf", "coshf", "tanhf", "asinhf", "acoshf", "atanhf", "expm1f", "log1pf", "sin",
   "cos", "tan", "asin", "acos", "atan", "atan2", "exp", "exp2", "log", "log2", "log10", "pow",
   "sqrt", "cbrt", "fabs", "floor", "ceil", "round", "trunc", "nearbyint", "rint", "fmod",
   "remainder", "hypot", "fma", "ldexp", "frexp", "modf", "copysign", "fmax", "fmin", "fdim",
   "scalbn", "scalbln", "logb", "ilogb", "erf", "erfc", "expm1", "log1p", "asinh", "acosh",
   "atanh", "lgamma", "tgamma", "j0", "j1", "localeconv", "__extendsfdf2", "__truncdfsf2",
   "__extendsftf2", "__extenddftf2", "__trunctfsf2", "__trunctfdf2", "__floatsidf", "__floatdidf",
   "__floatdisf", "__floatditf", "__floatsitf", "__floatunsidf", "__floatunsitf", "__fixdfsi",
   "__fixdfdi", "__fixsfdi", "__fixtfsi", "__fixtfdi", "__fixunstfsi", "__adddf3", "__subdf3",
   "__muldf3", "__divdf3", "__addtf3", "__subtf3", "__multf3", "__divtf3", "__eqdf2", "__nedf2",
   "__ltdf2", "__ledf2", "__gtdf2", "__gedf2", "__eqtf2", "__netf2", "__lttf2", "__letf2",
   "__gttf2", "__getf2", "__unordtf2", "__udivdi3", "__umoddi3", "__lshrdi3", "__ashrdi3",
   "__ashldi3", "__muldi3", "__divdi3", "__moddi3", "__fpclassify", "__fpclassifyf",
   "__fpclassifyl", "__signbit", "__signbitf", "__signbitl", "__stack_chk_guard",
   "__stack_chk_fail"]

end Blyt
