/-!
# The process starter for Windows

The C text that gives the script engine a way to start processes on Windows, where it has none of
its own. It is compiled into the engine's library and is empty on other systems.
-/

namespace CrossBuild.ProcessStarter

/-- The lines of the bundled text. -/
def lines : List String :=
  ["#if defined(_WIN32)",
   "#include <fcntl.h>",
   "#include <io.h>",
   "",
   "static int exec_win32_bool_option(JSContext *ctx, int *pbool,",
   "                                  JSValueConst obj, const char *name)",
   "\x7b",
   "    JSValue val = JS_GetPropertyStr(ctx, obj, name);",
   "    if (JS_IsException(val))",
   "        return -1;",
   "    if (!JS_IsUndefined(val))",
   "        *pbool = JS_ToBool(ctx, val);",
   "    JS_FreeValue(ctx, val);",
   "    return 0;",
   "\x7d",
   "",
   "static void exec_win32_free_envp(JSContext *ctx, char **envp)",
   "\x7b",
   "    char **p;",
   "    if (!envp)",
   "        return;",
   "    for (p = envp; *p != NULL; p++)",
   "        js_free(ctx, *p);",
   "    js_free(ctx, envp);",
   "\x7d",
   "",
   "/* \"KEY=VALUE\" array built from the enumerable string properties of obj */",
   "static char **exec_win32_build_envp(JSContext *ctx, JSValueConst obj)",
   "\x7b",
   "    uint32_t len, i;",
   "    JSPropertyEnum *tab;",
   "    char **envp;",
   "",
   "    if (JS_GetOwnPropertyNames(ctx, &tab, &len, obj,",
   "                               JS_GPN_STRING_MASK | JS_GPN_ENUM_ONLY) < 0)",
   "        return NULL;",
   "",
   "    envp = js_mallocz(ctx, sizeof(envp[0]) * ((size_t)len + 1));",
   "    if (!envp)",
   "        goto done;",
   "",
   "    for (i = 0; i < len; i++) \x7b",
   "        const char *key, *str;",
   "        size_t key_len, str_len;",
   "        char *pair;",
   "        JSValue val = JS_GetProperty(ctx, obj, tab[i].atom);",
   "        if (JS_IsException(val))",
   "            goto fail;",
   "        str = JS_ToCString(ctx, val);",
   "        JS_FreeValue(ctx, val);",
   "        if (!str)",
   "            goto fail;",
   "        key = JS_AtomToCString(ctx, tab[i].atom);",
   "        if (!key) \x7b",
   "            JS_FreeCString(ctx, str);",
   "            goto fail;",
   "        \x7d",
   "        key_len = strlen(key);",
   "        str_len = strlen(str);",
   "        pair = js_malloc(ctx, key_len + str_len + 2);",
   "        if (pair) \x7b",
   "            memcpy(pair, key, key_len);",
   "            pair[key_len] = '=';",
   "            memcpy(pair + key_len + 1, str, str_len);",
   "            pair[key_len + 1 + str_len] = '\\0';",
   "        \x7d",
   "        JS_FreeCString(ctx, key);",
   "        JS_FreeCString(ctx, str);",
   "        if (!pair)",
   "            goto fail;",
   "        envp[i] = pair;",
   "    \x7d",
   "    goto done;",
   "fail:",
   "    exec_win32_free_envp(ctx, envp);",
   "    envp = NULL;",
   "done:",
   "    for (i = 0; i < len; i++)",
   "        JS_FreeAtom(ctx, tab[i].atom);",
   "    js_free(ctx, tab);",
   "    return envp;",
   "\x7d",
   "",
   "/* os.exec(args[, options]) on top of _spawnvpe / _spawnve */",
   "static JSValue js_os_exec_win32(JSContext *ctx, JSValueConst this_val,",
   "                                int argc, JSValueConst *argv)",
   "\x7b",
   "    JSValueConst options, args = argv[0];",
   "    JSValue val, ret_val = JS_UNDEFINED;",
   "    const char **exec_argv = NULL;",
   "    char **envp = NULL;",
   "    const char *file = NULL;",
   "    uint32_t exec_argc = 0, i;",
   "    int ret, mode, block_flag = 1, use_path = 1;",
   "    int stdout_fd = -1, saved_stdout = -1;",
   "",
   "    val = JS_GetPropertyStr(ctx, args, \"length\");",
   "    if (JS_IsException(val))",
   "        return JS_EXCEPTION;",
   "    ret = JS_ToUint32(ctx, &exec_argc, val);",
   "    JS_FreeValue(ctx, val);",
   "    if (ret < 0)",
   "        return JS_EXCEPTION;",
   "    if (exec_argc < 1)",
   "        return JS_ThrowRangeError(ctx, \"empty argument list\");",
   "",
   "    exec_argv = js_mallocz(ctx, sizeof(exec_argv[0]) * (exec_argc + 1));",
   "    if (!exec_argv)",
   "        return JS_EXCEPTION;",
   "    for (i = 0; i < exec_argc; i++) \x7b",
   "        val = JS_GetPropertyUint32(ctx, args, i);",
   "        if (JS_IsException(val))",
   "            goto exception;",
   "        exec_argv[i] = JS_ToCString(ctx, val);",
   "        JS_FreeValue(ctx, val);",
   "        if (!exec_argv[i])",
   "            goto exception;",
   "    \x7d",
   "",
   "    if (argc >= 2) \x7b",
   "        options = argv[1];",
   "        if (exec_win32_bool_option(ctx, &block_flag, options, \"block\") < 0 ||",
   "            exec_win32_bool_option(ctx, &use_path, options, \"usePath\") < 0)",
   "            goto exception;",
   "",
   "        val = JS_GetPropertyStr(ctx, options, \"stdout\");",
   "        if (!JS_IsUndefined(val) && !JS_IsNull(val))",
   "            JS_ToInt32(ctx, &stdout_fd, val);",
   "        JS_FreeValue(ctx, val);",
   "",
   "        val = JS_GetPropertyStr(ctx, options, \"file\");",
   "        if (!JS_IsUndefined(val) && !JS_IsNull(val))",
   "            file = JS_ToCString(ctx, val);",
   "        JS_FreeValue(ctx, val);",
   "",
   "        val = JS_GetPropertyStr(ctx, options, \"env\");",
   "        if (!JS_IsUndefined(val) && !JS_IsNull(val))",
   "            envp = exec_win32_build_envp(ctx, val);",
   "        JS_FreeValue(ctx, val);",
   "    \x7d",
   "",
   "    if (stdout_fd != -1) \x7b",
   "        _flushall();",
   "        saved_stdout = _dup(_fileno(stdout));",
   "        if (_dup2(stdout_fd, _fileno(stdout)) == -1) \x7b",
   "            _close(saved_stdout);",
   "            saved_stdout = -1;",
   "        \x7d",
   "    \x7d",
   "",
   "    mode = block_flag ? _P_WAIT : _P_NOWAIT;",
   "    _flushall();",
   "    \x7b",
   "        const char *spawn_file = file ? file : exec_argv[0];",
   "        const char *const *envv = envp ? (const char *const *)envp",
   "                                        : (const char *const *)_environ;",
   "        if (use_path)",
   "            ret = (int)_spawnvpe(mode, spawn_file, exec_argv, envv);",
   "        else",
   "            ret = (int)_spawnve(mode, spawn_file, exec_argv, envv);",
   "    \x7d",
   "",
   "    if (saved_stdout != -1) \x7b",
   "        _flushall();",
   "        _dup2(saved_stdout, _fileno(stdout));",
   "        _close(saved_stdout);",
   "    \x7d",
   "",
   "    if (ret == -1) \x7b",
   "        JS_ThrowTypeError(ctx, \"exec error (spawn failed)\");",
   "        goto exception;",
   "    \x7d",
   "    ret_val = JS_NewInt32(ctx, ret);",
   "",
   "done:",
   "    if (file)",
   "        JS_FreeCString(ctx, file);",
   "    for (i = 0; i < exec_argc; i++) \x7b",
   "        if (exec_argv[i])",
   "            JS_FreeCString(ctx, exec_argv[i]);",
   "    \x7d",
   "    js_free(ctx, exec_argv);",
   "    exec_win32_free_envp(ctx, envp);",
   "    return ret_val;",
   "exception:",
   "    ret_val = JS_EXCEPTION;",
   "    goto done;",
   "\x7d",
   "#endif"]

/-- The bundled text. -/
def text : String :=
  String.join (lines.map (· ++ "\n"))

end CrossBuild.ProcessStarter
