import GraphKit.Upgrade.Second.Renames

/-!
# Symbols that need a look by hand after the second release

* `memberWarnings`: notes about methods, whatever object they are called on.

A note may name the function it stands at as `<function name>`.
-/

namespace GraphKit.Upgrade.Second

open Text (words)

/-- Learning-rate schedules return a function now. -/
def decayNote : String :=
  "WARNING: <function name> has been changed to return a callable instead of a tensor when graph building, but its " ++
  "functionality remains unchanged during eager execution (returns a callable like before). The converter cannot " ++
  "detect and fix this reliably, so this usage has been converted to compat.v1 (even though it may already be " ++
  "correct).\n"

def lossReductionNote : String := "WARNING: default value of loss_reduction has been changed to SUM_OVER_BATCH_SIZE.\n"

def safetyNote : String :=
  "\nThe calls have been converted to compat.v1 for safety (even though  they may already have been correct)."

def assertNote : String :=
  "WARNING: assert_* functions have been changed to return None, the data argument has been removed, and arguments " ++
  "have been reordered." ++ safetyNote

def assertRankNote : String :=
  "WARNING: assert_rank_* functions have been changed to return None, and the data and summarize arguments have " ++
  "been removed." ++ safetyNote

def onesLikeNote : String :=
  "WARNING: tf.zeros_like and tf.ones_like no longer have the optimize argument in TF 2.0 or after (also, `tensor' " ++
  "argument is renamed to `input')." ++ safetyNote

def initializerNote : String :=
  "WARNING: tf.initializers and tf.keras.initializers no longer have the dtype argument in the constructor or " ++
  "partition_info argument in the call method in TF 2.0 and after. The only API symbols are now " ++
  "tf.keras.initializers.* or tf.initializers.*.\nThe calls have been converted to compat.v1 for safety (even " ++
  "though they may already have been correct)."

def unitScalingNote : String :=
  "WARNING: uniform_unit_scaling_initializer has been removed. Please use tf.initializers.variance_scaling instead " ++
  "with distribution=uniform to get equivalent behaviour."

/-- The functions of a module became classes. -/
def classesNote (place one : String) : String :=
  "WARNING: " ++ place ++ " have been converted to object oriented versions in TF 2.0 and after. The " ++ one ++
  " function calls have been converted to compat.v1 for backward compatibility. Please update these calls to the " ++
  "TF 2.0 versions."

def exportNote : String :=
  "(Manual edit required) Please rename the method export_savedmodel() to export_saved_model(). Two things to " ++
  "note:\n\t(1) The argument strip_default_attributes has been removed. The function will always strip the default " ++
  "attributes from ops. If this breaks your code, please switch to tf.compat.v1.estimator.Estimator.\n\t(2) This " ++
  "change only effects core estimator. If you are using tf.contrib.learn.Estimator, please switch to using core " ++
  "estimator."

def initializableNote : String :=
  "(Manual edit required) The `tf.data.Dataset.make_initializable_iterator()` method has been removed. If you are " ++
  "using the Estimator API, you can return a dataset directly from your input functions without creating an " ++
  "iterator. As a last resort, please replace calls to that method on `dataset` with a call to " ++
  "`tf.compat.v1.data.make_initializable_iterator(dataset)`."

def oneShotNote : String :=
  "(Manual edit required) The `tf.data.Dataset.make_one_shot_iterator()` method has been removed. If you are using " ++
  "eager execution, you can iterate over `dataset` using a Python `for` loop. If you are using the Estimator API, " ++
  "you can return a dataset directly from your input functions without creating an iterator. As a last resort, " ++
  "please replace calls to that method on `dataset` with a call to " ++
  "`tf.compat.v1.data.make_one_shot_iterator(dataset)`."

/-- Sharded lookups divide their table one way only. -/
def partitionNote (name : String) : String :=
  "WARNING: `partition_strategy` has been removed from `" ++ name ++
  "`  The 'div' strategy is used by default."

def poolNote (name : String) : String :=
  name ++ " no longer takes 'seed2' and 'deterministic' arguments. Now it takes a single 'seed' arg. If 'seed' is " ++
  "zero, the execution is random and deterministic otherwise"

def members (place names : String) : List String := (words names).map (place ++ ·)

def warningGroups : List (String × List String) := [
  (assertNote, ["assert_greater", "assert_equal", "assert_less"] ++
    members "debugging." "assert_equal assert_greater assert_greater_equal assert_integer assert_less
    assert_less_equal assert_near assert_negative assert_non_negative assert_non_positive assert_none_equal
    assert_positive"),
  (assertRankNote, words "assert_rank debugging.assert_rank debugging.assert_rank_at_least debugging.assert_rank_in"),
  ("tf.cond no longer takes 'strict'. Now 'strict' defaults to True.fn1/fn2 arguments are replaced by " ++
    "true_fn/false_fn.", ["cond"]),
  ("tf.device no longer takes function as an argument. 'devide_name_or_function' argument has been renamed to " ++
    "'device_name'.", ["device"]),
  ("tf.flags has been removed, please use the argparse or absl module if you need command line parsing.", ["flags"]),
  (decayNote, members "train." "exponential_decay piecewise_constant_decay polynomial_decay natural_exp_decay
    inverse_time_decay cosine_decay cosine_decay_restarts linear_cosine_decay noisy_linear_cosine_decay"),
  (lossReductionNote, members "estimator." "LinearClassifier LinearRegressor DNNLinearCombinedClassifier
    DNNLinearCombinedRegressor DNNRegressor DNNClassifier BaselineClassifier BaselineRegressor"),
  ("tf.hessians no longer takes 'colocate_gradients_with_ops' argument. Also, arguments have been reordered so " ++
    "that 'name' is the last argument.", ["hessians"]),
  ("WARNING: use_cudnn_on_gpu argument has been removed and \"value\" was renamed to \"input\"", ["nn.conv1d"]),
  ("WARNING: use_cudnn_on_gpu argument has been removed and \"filter\" was renamed to " ++
    "\"filters\"", ["nn.conv2d", "nn.conv2d_backprop_input"]),
  ("WARNING: use_cudnn_on_gpu argument has been removed", ["nn.conv2d_backprop_filter"]),
  ("WARNING: <function name> now requires a data_format argument", ["nn.erosion2d"]),
  (partitionNote "tf.nn.nce_loss", ["nn.nce_loss"]),
  (partitionNote "tf.nn.safe_embedding_lookup_sparse", ["nn.safe_embedding_lookup_sparse"]),
  (partitionNote "tf.nn.sampled_softmax_loss", ["nn.sampled_softmax_loss"]),
  (onesLikeNote, ["zeros_like", "ones_like"]),
  ("WARNING: validate_indices argument has been removed.", ["nn.embedding_lookup"]),
  ("tf.while_loop no longer takes 'return_same_structure' argument. 'return_same_structure' now defaults to True. " ++
    "Also, 'name'argument is now the last argument.", ["while_loop"]),
  ("tf.image.sample_distorted_bounding_box no longer takes 'seed2' argument.",
    ["image.sample_distorted_bounding_box"]),
  ("tf.nn.ctc_beam_search_decoder no longer takes 'merge_repeated' argument. 'merge_repeated' now defaults to " ++
    "False.", ["nn.ctc_beam_search_decoder"]),
  (poolNote "tf.nn.fractional_avg_pool", ["nn.fractional_avg_pool"]),
  (poolNote "tf.nn.fractional_max_pool", ["nn.fractional_max_pool"]),
  ("tf.nn.softmax_cross_entropy_with_logits behavior has changed. 'labels' needs to be wrapped with " ++
    "tf.stop_gradient to keep the old behavior. Also, 'dim' argument has been renamed to " ++
    "'axis'.", ["nn.softmax_cross_entropy_with_logits"]),
  ("tf.assert_equal_graph_def no longer takes 'checkpoint_v2' argument. 'checkpoint_v2' now defaults to " ++
    "True.", ["test.assert_equal_graph_def"]),
  (initializerNote, members "keras.initializers." "Zeros zeros Ones ones Constant constant VarianceScaling
    Orthogonal orthogonal Identity identity glorot_uniform glorot_normal" ++
    words "initializers.zeros zeros_initializer initializers.ones ones_initializer
    initializers.constant constant_initializer initializers.random_uniform random_uniform_initializer
    initializers.random_normal random_normal_initializer initializers.truncated_normal
    truncated_normal_initializer initializers.variance_scaling variance_scaling_initializer
    initializers.orthogonal orthogonal_initializer initializers.identity glorot_uniform_initializer
    initializers.glorot_uniform glorot_normal_initializer initializers.glorot_normal"),
  (unitScalingNote, ["initializers.uniform_unit_scaling", "uniform_unit_scaling_initializer"]),
  (classesNote "tf.losses" "loss", losses.map ("losses." ++ ·)),
  (classesNote "tf.metrics" "metric", metrics.map ("metrics." ++ ·))
]

def memberWarnings : List (String × String) := [
  ("export_savedmodel", exportNote),
  ("make_initializable_iterator", initializableNote),
  ("make_one_shot_iterator", oneShotNote)
]

end GraphKit.Upgrade.Second
